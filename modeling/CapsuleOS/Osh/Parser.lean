import CapsuleOS.Lib.Utf8

/-!
# The parser of the shell

A line is split at `|` and each part at spaces, by two scans over bytes that cut the text at the positions they
find. `none` is a panic: a cut that is out of range or inside a character. A result `some none` is the `None` of
the source. The loops go over the bytes that are left, with the position of the first of them.
-/
namespace CapsuleOS.Osh

open Lib

def maxArgs : Nat := 16
def maxStages : Nat := 4

/-- Unicode white space, which `trim` takes off. -/
def isWhitespace (c : Char) : Bool :=
  let v := c.toNat
  (9 ≤ v && v ≤ 13) || v = 0x20 || v = 0x85 || v = 0xA0 || v = 0x1680 || (0x2000 ≤ v && v ≤ 0x200A) ||
    v = 0x2028 || v = 0x2029 || v = 0x202F || v = 0x205F || v = 0x3000

def trim (t : Text) : Text := Text.trim isWhitespace t

/-- Space, tab, carriage return and line feed. -/
def isSeparator (byte : UInt8) : Bool := byte = 32 || byte = 9 || byte = 13 || byte = 10

def isBar (byte : UInt8) : Bool := byte = 124

structure Command where
  name : Text
  args : Fin maxArgs → Text
  argCount : Nat

def Command.empty : Command := ⟨[], fun _ => [], 0⟩

structure Pipeline where
  stages : Fin maxStages → Command
  stageCount : Nat

def Pipeline.empty : Pipeline := ⟨fun _ => .empty, 0⟩

/-! ## One stage -/

/-- The words that are found, the first apart from the others. -/
structure Words where
  name : Text
  args : Fin maxArgs → Text
  argCount : Nat
  wordCount : Nat

namespace Words

def start : Words := ⟨[], fun _ => [], 0, 0⟩

def keep (w : Words) (word : Text) : Words :=
  if w.wordCount = 0 then { w with name := word }
  else if h : w.argCount < maxArgs then
    { w with args := Function.update w.args ⟨w.argCount, h⟩ word, argCount := w.argCount + 1 }
  else w

def command (w : Words) : Command := ⟨w.name, w.args, w.argCount⟩

end Words

/-- The state of the scan is the words, whether it is in a word, and where that begins. -/
def scanWords (trimmed : Text) : Nat → List UInt8 → Words → Bool → Nat → Option (Words × Bool × Nat)
  | _, [], w, inWord, startIdx => some (w, inWord, startIdx)
  | i, byte :: rest, w, inWord, startIdx =>
    if isSeparator byte then
      if inWord then do
        let word ← trimmed.slice startIdx i
        let w := w.keep word
        scanWords trimmed (i + 1) rest { w with wordCount := w.wordCount + 1 } false startIdx
      else scanWords trimmed (i + 1) rest w inWord startIdx
    else if inWord then scanWords trimmed (i + 1) rest w inWord startIdx
    else scanWords trimmed (i + 1) rest w true i

/-- A word that goes to the end of the text. -/
def lastWord (trimmed : Text) (w : Words) (inWord : Bool) (startIdx : Nat) : Option Words :=
  if inWord then (trimmed.sliceFrom startIdx).map w.keep else some w

def splitWords (line : Text) : Option (Option Command) :=
  let trimmed := trim line
  if trimmed = [] then some none
  else do
    let (w, inWord, startIdx) ← scanWords trimmed 0 trimmed.bytes .start false 0
    let w ← lastWord trimmed w inWord startIdx
    if w.name = [] then return none else return some w.command

/-! ## The line -/

namespace Pipeline

/-- Behind the last slot, commands are dropped. -/
def push (p : Pipeline) (cmd : Command) : Pipeline :=
  if h : p.stageCount < maxStages then
    ⟨Function.update p.stages ⟨p.stageCount, h⟩ cmd, p.stageCount + 1⟩
  else p

/-- What is done with a part of the line. -/
def add (p : Pipeline) (stage : Text) : Option Pipeline :=
  if trim stage = [] then some p
  else do
    match ← splitWords stage with
    | some cmd => return p.push cmd
    | none => return p

end Pipeline

def scanStages (trimmed : Text) : Nat → List UInt8 → Nat → Pipeline → Option (Nat × Pipeline)
  | _, [], stageStart, p => some (stageStart, p)
  | i, byte :: rest, stageStart, p =>
    if isBar byte then do
      let stage ← trimmed.slice stageStart i
      let p ← p.add stage
      scanStages trimmed (i + 1) rest (i + 1) p
    else scanStages trimmed (i + 1) rest stageStart p

def parseLine (line : Text) : Option (Option Pipeline) :=
  let trimmed := trim line
  if trimmed = [] then some none
  else do
    let (stageStart, p) ← scanStages trimmed 0 trimmed.bytes 0 .empty
    let final ← trimmed.sliceFrom stageStart
    let p ← p.add final
    if p.stageCount = 0 then return none else return some p

end CapsuleOS.Osh
