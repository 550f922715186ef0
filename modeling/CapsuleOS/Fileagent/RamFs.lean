import CapsuleOS.Lib.Bytes
import CapsuleOS.Lib.Runs
import CapsuleOS.Shared.Status

/-!
# The RAM file system

The nodes are kept in parallel arrays: a first child, a next sibling and a parent for every node. An
index that is not negative is one of the sixteen nodes; `index?` is the range check that the public
functions make. Names are the bytes up to the recorded length.

A walk along siblings has as many rounds as there are nodes: if that is not enough, the siblings form a
circle and the loop of the source does not end. Searches return `none` then, and calls fault.

One field is not in the source: `births` counts how often an index was given to a new node.
-/
namespace CapsuleOS.Fileagent

open Lib

def maxFiles : Nat := 16
def maxName : Nat := 64
def fileSize : Nat := 4096

abbrev Idx := Fin maxFiles

inductive NodeType where
  | file
  | directory
  deriving DecidableEq, Repr

structure Fs where
  names : Idx → List UInt8
  /-- No type is the type 0 of a node that is not in use. -/
  ntypes : Idx → Option NodeType
  sizes : Idx → Nat
  parents : Idx → Option Idx
  firstChild : Idx → Option Idx
  nextSibling : Idx → Option Idx
  childCounts : Idx → Nat
  datas : Idx → Mem
  root : Option Idx
  nextIdx : Nat
  births : Idx → Nat

abbrev FsM := Prog Fs Status

def rootIdx : Idx := ⟨0, by decide⟩

def slash : UInt8 := 47

def index? (i : Int) : Option Idx :=
  if h : 0 ≤ i ∧ i.toNat < maxFiles then some ⟨i.toNat, h.2⟩ else none

namespace Fs

/-- The static arrays before `init`. -/
def zeroed : Fs where
  names _ := []
  ntypes _ := none
  sizes _ := 0
  parents _ := none
  firstChild _ := none
  nextSibling _ := none
  childCounts _ := 0
  datas _ := fun _ => 0
  root := none
  nextIdx := 0
  births _ := 0

def init (s : Fs) : Fs :=
  { s with
    root := some rootIdx
    nextIdx := 1
    ntypes := Function.update s.ntypes rootIdx (some .directory)
    names := Function.update s.names rootIdx [slash] }

/-- The file system after `init`. -/
def start : Fs := zeroed.init

/-! ## Searching -/

/-- The first sibling with the name, from `cur` on. -/
def search (s : Fs) (name : List UInt8) : Nat → Option Idx → Option (Option Idx)
  | _, none => some none
  | 0, some _ => none
  | rounds + 1, some cur =>
    if s.names cur = name then some (some cur) else s.search name rounds (s.nextSibling cur)

def childNamed (s : Fs) (parent : Idx) (name : List UInt8) : Option (Option Idx) :=
  s.search name maxFiles (s.firstChild parent)

def findChild (s : Fs) (parent : Int) (name : List UInt8) : Option (Option Idx) :=
  match index? parent with
  | none => some none
  | some p => s.childNamed p name

/-- The path without a leading slash. -/
def clean : List UInt8 → List UInt8
  | b :: path => if b = slash then path else b :: path
  | [] => []

def components (path : List UInt8) : List (List UInt8) := (path.splitOn slash).filter (· ≠ [])

def resolveFrom (s : Fs) : List (List UInt8) → Idx → Option (Option Idx)
  | [], cur => some (some cur)
  | c :: cs, cur => do
    match ← s.childNamed cur c with
    | none => return none
    | some found => s.resolveFrom cs found

def resolve (s : Fs) (path : List UInt8) : Option (Option Idx) :=
  if clean path = [] then some s.root
  else
    match s.root with
    | none => some none
    | some root => s.resolveFrom (components (clean path)) root

/-- The last sibling from `cur` on. -/
def lastSibling (s : Fs) : Nat → Idx → Option Idx
  | 0, _ => none
  | rounds + 1, cur =>
    match s.nextSibling cur with
    | none => some cur
    | some next => s.lastSibling rounds next

end Fs

/-- A search as part of a call. -/
def look {α : Type} (f : Fs → Option α) : FsM α := fun s =>
  match f s with
  | some a => .ok a s
  | none => .fault s

namespace Fs

/-! ## Creation -/

/-- The first free node other than the root. -/
def firstFree (ntypes : Idx → Option NodeType) : Option Idx :=
  (List.finRange maxFiles).find? fun j => j ≠ rootIdx ∧ ntypes j = none

def allocIdx : FsM (Option Idx) := fun s =>
  if h : s.nextIdx < maxFiles then .ok (some ⟨s.nextIdx, h⟩) { s with nextIdx := s.nextIdx + 1 }
  else
    match firstFree s.ntypes with
    | some j => .ok (some j) { s with nextIdx := j + 1 }
    | none => .ok none s

/-- The fields of a new node. Its bytes stay as they are. -/
def fill (s : Fs) (idx : Idx) (name : List UInt8) (ntype : NodeType) (parent : Idx) : Fs :=
  { s with
    names := Function.update s.names idx (name.take (maxName - 1))
    ntypes := Function.update s.ntypes idx (some ntype)
    sizes := Function.update s.sizes idx 0
    parents := Function.update s.parents idx (some parent)
    firstChild := Function.update s.firstChild idx none
    nextSibling := Function.update s.nextSibling idx none
    childCounts := Function.update s.childCounts idx 0
    births := Function.update s.births idx (s.births idx + 1) }

def setFirst (s : Fs) (parent : Idx) (link : Option Idx) : Fs :=
  { s with firstChild := Function.update s.firstChild parent link }

def setNext (s : Fs) (node : Idx) (link : Option Idx) : Fs :=
  { s with nextSibling := Function.update s.nextSibling node link }

/-- The count is a byte. -/
def setCount (s : Fs) (parent : Idx) (n : Nat) : Fs :=
  { s with childCounts := Function.update s.childCounts parent (n % 256) }

/-- Put the node behind the last child. -/
def append (parent idx : Idx) : FsM Unit := do
  let s ← Prog.get
  match s.firstChild parent with
  | none => Prog.modify (·.setFirst parent (some idx))
  | some first =>
    let last ← look (·.lastSibling maxFiles first)
    Prog.modify (·.setNext last (some idx))

def setNode (name : List UInt8) (ntype : NodeType) (parent : Idx) : FsM (Option Idx) := do
  match ← allocIdx with
  | none => return none
  | some idx =>
    Prog.modify (·.fill idx name ntype parent)
    append parent idx
    Prog.modify fun s => s.setCount parent (s.childCounts parent + 1)
    return some idx

/-- `create_file` and `create_dir`. -/
def create (ntype : NodeType) (parent : Int) (name : List UInt8) : FsM (Option Idx) :=
  match index? parent with
  | none => pure none
  | some p => do
    let s ← Prog.get
    if s.ntypes p ≠ some .directory then return none
    else
      match ← look (·.findChild parent name) with
      | some _ => return none
      | none => setNode name ntype p

def createFile (parent : Int) (name : List UInt8) : FsM (Option Idx) := create .file parent name

def createDir (parent : Int) (name : List UInt8) : FsM (Option Idx) := create .directory parent name

/-- The loop of `mkdir_path`; an error is a status that is returned. -/
def mkdirLoop : List (List UInt8) → Idx → FsM Unit
  | [], _ => pure ()
  | c :: cs, cur => do
    match ← look (·.childNamed cur c) with
    | some found =>
      if cs = [] then Prog.throw .alreadyExists
      else
        let s ← Prog.get
        if s.ntypes found ≠ some .directory then Prog.throw .wrongType else mkdirLoop cs found
    | none =>
      match ← createDir cur.val c with
      | some new => mkdirLoop cs new
      | none => Prog.throw .noMemory

def mkdirPath (path : List UInt8) : FsM Unit := do
  if clean path = [] then pure ()
  else
    let s ← Prog.get
    match s.root with
    | none => Prog.throw .notFound
    | some root => mkdirLoop (components (clean path)) root

/-- The path up to the last slash, and the name behind it. -/
def splitLast (path : List UInt8) : List UInt8 × List UInt8 :=
  (((path.reverse.dropWhile (· ≠ slash)).drop 1).reverse, (path.reverse.takeWhile (· ≠ slash)).reverse)

/-- Where `create_file_path` puts the file. -/
def fileTarget (s : Fs) (path : List UInt8) : Option (Option (Int × List UInt8)) :=
  let path := clean path
  if path = [] then some none
  else if slash ∈ path then do
    let (parent, name) := splitLast path
    match ← s.resolve parent with
    | some p => return some (p.val, name)
    | none => return none
  else some (some (match s.root with | some r => (r.val : Int) | none => -1, path))

def createFilePath (path : List UInt8) : FsM (Option Idx) := do
  match ← look (·.fileTarget path) with
  | none => return none
  | some (parent, name) => createFile parent name

/-! ## Removal -/

/-- The node is taken out from behind `prev`, or from the front, and cleared. -/
def unlink (s : Fs) (parent child : Idx) (prev : Option Idx) : Fs :=
  let s := match prev with
    | none => s.setFirst parent (s.nextSibling child)
    | some p => s.setNext p (s.nextSibling child)
  let s := s.setCount parent (s.childCounts parent + 255)
  { s with
    ntypes := Function.update s.ntypes child none
    names := Function.update s.names child []
    sizes := Function.update s.sizes child 0
    parents := Function.update s.parents child none
    firstChild := Function.update s.firstChild child none
    nextSibling := Function.update s.nextSibling child none
    childCounts := Function.update s.childCounts child 0
    datas := Function.update s.datas child fun _ => 0 }

def unlinkLoop (parent child : Idx) : Nat → Option Idx → Option Idx → FsM Bool
  | _, _, none => pure false
  | 0, _, some _ => Prog.fault
  | rounds + 1, prev, some cur =>
    if cur = child then do
      Prog.modify (·.unlink parent child prev)
      return true
    else do
      let s ← Prog.get
      unlinkLoop parent child rounds (some cur) (s.nextSibling cur)

def remove (parent child : Int) : FsM Bool :=
  match index? parent, index? child with
  | some p, some c => do
    let s ← Prog.get
    if s.ntypes c = some .directory ∧ s.childCounts c > 0 then return false
    else if s.ntypes c = none then return false
    else unlinkLoop p c maxFiles none (s.firstChild p)
  | _, _ => pure false

/-! ## Contents -/

/-- `none` is the result -1. -/
def read (s : Fs) (idx : Int) (len offset : Nat) : Option (List UInt8) := do
  let i ← index? idx
  if s.ntypes i = none then none
  else if offset ≥ s.sizes i then some []
  else some ((s.datas i).load offset (min len (s.sizes i - offset)))

/-- Behind the end of the array the difference wraps, and the slice is out of bounds. -/
def write (idx : Int) (data : List UInt8) (offset : Nat) : FsM (Option Nat) := fun s =>
  match index? idx with
  | none => .ok none s
  | some i =>
    if s.ntypes i ≠ some .file then .ok none s
    else if offset > fileSize then .fault s
    else
      let n := min data.length (fileSize - offset)
      .ok (some n)
        { s with
          datas := Function.update s.datas i ((s.datas i).store offset (data.take n))
          sizes := Function.update s.sizes i (max (s.sizes i) (offset + n)) }

/-- The names of the siblings, with a line feed between two of them, in `cap` bytes. -/
def listLoop (s : Fs) (cap : Nat) : Nat → Bool → Option Idx → List UInt8 → Option (List UInt8)
  | _, _, none, written => some written
  | 0, _, some _, _ => none
  | rounds + 1, first, some cur, written =>
    if !first ∧ written.length ≥ cap then some written
    else
      let written := if first then written else written ++ [10]
      s.listLoop cap rounds false (s.nextSibling cur) (written ++ (s.names cur).take (cap - written.length))

/-- `readdir_names`; the inner `none` is the result -1. -/
def readdirNames (s : Fs) (parent : Int) (cap : Nat) : Option (Option (List UInt8)) :=
  match index? parent with
  | none => some none
  | some p =>
    if s.ntypes p ≠ some .directory then some none
    else (s.listLoop cap maxFiles true (s.firstChild p) []).map some

def parentOf (s : Fs) (child : Int) : Option Idx := (index? child).bind s.parents

end Fs

/-! ## Calls -/

inductive FsOp where
  | createFile (parent : Int) (name : List UInt8)
  | createDir (parent : Int) (name : List UInt8)
  | mkdirPath (path : List UInt8)
  | createFilePath (path : List UInt8)
  | remove (parent child : Int)

namespace FsOp

def perform : FsOp → FsM Unit
  | .createFile parent name => do let _ ← Fs.createFile parent name
  | .createDir parent name => do let _ ← Fs.createDir parent name
  | .mkdirPath path => Fs.mkdirPath path
  | .createFilePath path => do let _ ← Fs.createFilePath path
  | .remove parent child => do let _ ← Fs.remove parent child

def system : Stepper Fs Status FsOp := ⟨perform, fun _ _ => True⟩

end FsOp

end CapsuleOS.Fileagent
