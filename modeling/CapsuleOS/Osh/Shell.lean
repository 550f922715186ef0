import CapsuleOS.Lib.Outcome
import CapsuleOS.Osh.Pipelines

/-!
# The shell

`run_shell` reads a line, executes it and goes on for ever; `run_script` executes the lines of a file. Both
meet the system through the trait `Environment`, here a record of what the calls do to a state. A call may
stop the shell for good (`Stop`), and a panic is a fault.
-/
namespace CapsuleOS.Osh

open Lib

inductive ShellError where
  | ioError
  | pathNotFound
  | permissionDenied
  | unknown
  deriving DecidableEq, Repr

/-- Ends of the process that are no return. -/
inductive Stop where
  | waits
  | killed
  | exited (code : Int)
  deriving DecidableEq, Repr

abbrev ShM (σ : Type) := Prog σ Stop

/-- `readLine` and `getcwd` get the buffer and give it back, `readFile` gets its length. -/
structure Environment (σ : Type) where
  writeStdout : List UInt8 → ShM σ Unit
  writeStderr : List UInt8 → ShM σ Unit
  readLine : List UInt8 → ShM σ (Except ShellError Nat × List UInt8)
  getcwd : List UInt8 → ShM σ (Except ShellError Nat × List UInt8)
  chdir : Text → ShM σ (Except ShellError Unit)
  setEnv : Text → Text → ShM σ (Except ShellError Unit)
  printEnvs : ShM σ Unit
  spawn : Text → List Text → ShM σ (Except ShellError Nat)
  wait : Nat → ShM σ (Except ShellError Int)
  yieldCpu : ShM σ Unit
  openFile : Text → Int → ShM σ (Except ShellError Int)
  write : Int → List UInt8 → ShM σ (Except ShellError Nat)
  close : Int → ShM σ Unit
  readFile : Text → Nat → ShM σ (Except ShellError Nat × List UInt8)
  exit : Int → ShM σ Empty

/-- The bytes of a literal. -/
def lit (s : String) : List UInt8 := Text.bytes s.toList

/-- `from_utf8`. -/
def textOf (bytes : List UInt8) : Option Text := (String.fromUTF8? ⟨bytes.toArray⟩).map String.toList

/-- The digits go into the buffer from the lowest on. -/
def digitLoop (v : Nat) (buf : List UInt8) (i : Nat) : List UInt8 × Nat :=
  if v > 0 ∧ i < buf.length then digitLoop (v / 10) (buf.set i (UInt8.ofNat (48 + v % 10))) (i + 1) else (buf, i)
termination_by v

/-- `lo` and `hi` go towards each other, `hi` as an `isize` that is read as a `usize`. `none` is an index out of
range. -/
def swapLoop (buf : List UInt8) (lo : Nat) (hi : Int) : Option (List UInt8) :=
  let top := (hi % 2 ^ 64).toNat
  if lo < top then
    match buf[lo]?, buf[top]? with
    | some t, some u => swapLoop ((buf.set lo u).set top t) (lo + 1) (hi - 1)
    | _, _ => none
  else some buf
termination_by (hi % 2 ^ 64).toNat - lo
decreasing_by omega

/-- `none` is a panic. -/
def formatU32 (v : Nat) (buf : List UInt8) : Option (List UInt8) :=
  if v = 0 then if 0 < buf.length then some ((buf.set 0 48).take 1) else none
  else do
    let (buf, i) := digitLoop v buf 0
    let buf ← swapLoop buf 0 (i - 1)
    if i ≤ buf.length then return buf.take i else none

section Program

variable {σ : Type} (env : Environment σ)

/-! ## Built-in commands -/

namespace Builtins

def cd (cmd : Command) : ShM σ Unit :=
  if cmd.argCount > 0 then do
    let target := cmd.args ⟨0, by decide⟩
    match ← env.chdir target with
    | .ok _ => pure ()
    | .error .pathNotFound =>
      env.writeStderr (lit "Error: Path not found: ")
      env.writeStderr target.bytes
      env.writeStderr (lit "\n")
    | .error .permissionDenied => env.writeStderr (lit "Error: Permission denied\n")
    | .error _ => env.writeStderr (lit "Error: Failed to change directory\n")
  else env.writeStderr (lit "Error: cd requires a path argument\n")

def pwd : ShM σ Unit := do
  let (len, buf) ← env.getcwd (List.replicate 512 0)
  match len with
  | .ok len =>
    if len ≤ buf.length then
      env.writeStdout (buf.take len)
      env.writeStdout (lit "\n")
    else Prog.fault
  | .error _ => env.writeStderr (lit "Error: Failed to get current directory\n")

/-- The arguments that are used; behind the array is a panic. -/
def argList (cmd : Command) : ShM σ (List Text) :=
  if cmd.argCount ≤ maxArgs then pure ((List.ofFn cmd.args).take cmd.argCount) else Prog.fault

def echoLoop : List Text → ShM σ Unit
  | [] => pure ()
  | arg :: args => do
    env.writeStdout (lit " ")
    env.writeStdout arg.bytes
    echoLoop args

def echo (cmd : Command) : ShM σ Unit := do
  match ← argList cmd with
  | [] => pure ()
  | arg :: args =>
    env.writeStdout arg.bytes
    echoLoop env args
  env.writeStdout (lit "\n")

def export_ (cmd : Command) : ShM σ Unit :=
  if cmd.argCount = 0 then env.writeStderr (lit "Error: export requires an argument like KEY=VALUE\n")
  else
    let arg := cmd.args ⟨0, by decide⟩
    match arg.find '=' with
    | some pos =>
      match arg.slice 0 pos, arg.sliceFrom (pos + 1) with
      | some key, some val =>
        if key = [] then env.writeStderr (lit "Error: Invalid export key\n")
        else do let _ ← env.setEnv key val
      | _, _ => Prog.fault
    | none => env.writeStderr (lit "Error: Invalid export format, use KEY=VALUE\n")

/-- The names that `type` knows. -/
def typeNames : List Text :=
  ["cd", "pwd", "exit", "help", "echo", "export", "env", "type"].map String.toList

def type_ (cmd : Command) : ShM σ Unit :=
  if cmd.argCount = 0 then env.writeStderr (lit "Error: type requires an argument\n")
  else do
    let target := cmd.args ⟨0, by decide⟩
    env.writeStdout target.bytes
    env.writeStdout (if target ∈ typeNames then lit " is a shell builtin\n" else lit " not found as a builtin\n")

def helpLines : List String :=
  ["osh - Capsule OS Shell\n", "Built-in commands:\n", "  cd <path>       Change current working directory\n",
    "  pwd             Print current working directory\n", "  echo [args]     Print messages to standard output\n",
    "  export K=V      Set an environment variable\n", "  env             Print all environment variables\n",
    "  type <cmd>      Describe a command type\n", "  exit            Exit the shell\n",
    "  help            Show this help message\n"]

def help : ShM σ Unit := Prog.forEach (fun line => env.writeStdout (lit line)) helpLines

def exit_ : ShM σ Unit := do
  env.writeStdout (lit "Goodbye!\n")
  nomatch ← env.exit 0

end Builtins

open Builtins in
/-- Whether the command is built in; then it has been run. -/
def executeBuiltin (cmd : Command) : ShM σ Bool := do
  if cmd.name = "cd".toList then cd env cmd; return true
  else if cmd.name = "pwd".toList then pwd env; return true
  else if cmd.name = "echo".toList then echo env cmd; return true
  else if cmd.name = "export".toList then export_ env cmd; return true
  else if cmd.name = "env".toList then env.printEnvs; return true
  else if cmd.name = "type".toList then type_ env cmd; return true
  else if cmd.name = "help".toList then help env; return true
  else if cmd.name = "exit".toList then exit_ env; return true
  else if cmd.name = "clear".toList then env.writeStdout (lit "\x1b[2J\x1b[H"); return true
  else return false

/-! ## Lines -/

/-- One stage of a pipeline: whether the loop goes on. -/
def spawnStage (i : Nat) (cmd : Command) : ShM σ Bool := do
  match ← env.spawn cmd.name (← Builtins.argList cmd) with
  | .error _ =>
    env.writeStderr (lit "osh: spawn failed: ")
    env.writeStderr cmd.name.bytes
    env.writeStderr (lit "\n")
    return false
  | .ok _ =>
    env.writeStderr (lit "osh: pipe stage ")
    match formatU32 (i % 2 ^ 32) (List.replicate 16 0) with
    | none => Prog.fault
    | some digits =>
      env.writeStderr digits
      env.writeStderr (lit " -> ")
      env.writeStderr cmd.name.bytes
      env.writeStderr (lit "\n")
      return true

/-- The stages from `i` on. Nothing is piped and nothing is waited for. -/
def pipelineLoop (p : Pipeline) : Nat → Nat → ShM σ Unit
  | 0, _ => env.yieldCpu
  | rounds + 1, i =>
    if h : i < maxStages then do
      if ← spawnStage env i (p.stages ⟨i, h⟩) then pipelineLoop p rounds (i + 1) else pure ()
    else Prog.fault

def runPipeline (p : Pipeline) : ShM σ Unit := pipelineLoop env p p.stageCount 0

def isLineEnd (c : Char) : Bool := c = Char.ofNat 13 ∨ c = Char.ofNat 10

/-- A single command that is not built in is waited for. -/
def runCommand (cmd : Command) : ShM σ Unit := do
  if ← executeBuiltin env cmd then pure ()
  else
    match ← env.spawn cmd.name (← Builtins.argList cmd) with
    | .ok pid => let _ ← env.wait pid
    | .error _ =>
      env.writeStderr (lit "osh: command not found: ")
      env.writeStderr cmd.name.bytes
      env.writeStderr (lit "\n")

def executePipeline (line : Text) : ShM σ Unit :=
  let trimmed := line.rdropWhile isLineEnd
  if trimmed = [] ∨ trimmed.head? = some '#' then pure ()
  else
    match parseLine trimmed with
    | none => Prog.fault
    | some none => pure ()
    | some (some p) =>
      if p.stageCount = 0 then pure ()
      else if p.stageCount = 1 then runCommand env (p.stages ⟨0, by decide⟩)
      else runPipeline env p

/-! ## Scripts -/

/-- The length of `script_buf`. -/
def scriptSize : Nat := 4096

/-- The lines that end before the byte `i`; `start` is where the current one begins. -/
def scriptLoop (script : Text) : Nat → List UInt8 → Nat → ShM σ Nat
  | _, [], start => pure start
  | i, byte :: bytes, start =>
    if byte = 10 then
      match script.slice start i with
      | none => Prog.fault
      | some line => do
        executePipeline env line
        scriptLoop script (i + 1) bytes (i + 1)
    else scriptLoop script (i + 1) bytes start

def runScript (path : Text) : ShM σ Unit := do
  let (count, buf) ← env.readFile path scriptSize
  match count with
  | .error _ =>
    env.writeStderr (lit "osh: cannot open script: ")
    env.writeStderr path.bytes
    env.writeStderr (lit "\n")
  | .ok count =>
    if count ≤ buf.length then
      match textOf (buf.take count) with
      | none => env.writeStderr (lit "Error: Script file contains invalid UTF-8\n")
      | some script =>
        let start ← scriptLoop env script 0 script.bytes 0
        match script.sliceFrom start with
        | none => Prog.fault
        | some tail => if tail = [] then pure () else executePipeline env tail
    else Prog.fault

/-! ## The interactive shell -/

/-- The length of `input_buf`. -/
def inputSize : Nat := 256

def prompt : List UInt8 := lit "osh$ "

/-- What is done with the bytes of a line. -/
def executeBytes (bytes : List UInt8) : ShM σ Unit :=
  match textOf bytes with
  | some line => executePipeline env line
  | none => env.writeStderr (lit "Error: Invalid UTF-8 input\n")

/-- One round of the loop, with the buffer. -/
def shellRound (inputBuf : List UInt8) : ShM σ (List UInt8) := do
  env.writeStdout prompt
  let (count, inputBuf) ← env.readLine inputBuf
  match count with
  | .ok bytesRead =>
    if bytesRead > 0 then
      if bytesRead ≤ inputBuf.length then
        executeBytes env (inputBuf.take bytesRead)
        return inputBuf
      else Prog.fault
    else return inputBuf
  | .error _ => return inputBuf

/-- The first rounds of the loop of `run_shell`, which has no end. -/
def shellLoop : Nat → List UInt8 → ShM σ (List UInt8)
  | 0, inputBuf => pure inputBuf
  | rounds + 1, inputBuf => do
    let inputBuf ← shellRound env inputBuf
    shellLoop rounds inputBuf

/-- What is done before the loop: the screen is cleared. -/
def clearScreen : ShM σ Unit := do
  match ← env.openFile "/dev/tty".toList 0 with
  | .ok ttyFd =>
    let _ ← env.write ttyFd (lit "\x1b[2J\x1b[H")
    env.close ttyFd
  | .error _ => pure ()

def runShell (rounds : Nat) : ShM σ (List UInt8) := do
  clearScreen env
  shellLoop env rounds (List.replicate inputSize 0)

end Program

end CapsuleOS.Osh
