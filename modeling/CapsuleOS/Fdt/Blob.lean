import CapsuleOS.Lib.Access
import CapsuleOS.Lib.Loop
import CapsuleOS.Rootfs.Image

/-!
# The search in a device tree

The structure block is a stream of tokens that the kernel goes through once. The bytes come from the boot
loader. Every read, every slice and every sum of the model is checked: a raw read outside the block, an index
out of range and an overflow are faults. `find_safe` says that on arbitrary blocks there is none, and that
the search ends.
-/
namespace CapsuleOS.Fdt

open Lib
open Rootfs (utf8 fromUtf8)

inductive Fault where
  | wildRead
  | panic
  | overflow

/-- The sizes of the blocks are 32-bit fields of the header. -/
structure Parser where
  structBlock : List UInt8
  stringsBlock : List UInt8
  struct_lt : structBlock.length < 2 ^ 32
  strings_lt : stringsBlock.length < 2 ^ 32

/-- The variables of the loop. -/
structure Scan where
  pos : Nat
  depth : Int
  targetDepth : Option Int

def Scan.start : Scan := ⟨0, 0, none⟩

/-! ## Checked arithmetic and reads -/

def usize (n : Nat) : Except Fault Nat := if n < 2 ^ 64 then .ok n else .error .overflow

def i32 (n : Int) : Except Fault Int := if -2 ^ 31 ≤ n ∧ n < 2 ^ 31 then .ok n else .error .overflow

def align4 (len : Nat) : Except Fault Nat := do
  let up ← usize (len + 3)
  return up - up % 4

/-- The number that four bytes stand for, highest byte first. -/
def ofBe (bytes : List UInt8) : Nat := Mem.ofBytes bytes.reverse

/-- A raw read. -/
def readU32 (block : List UInt8) (pos : Nat) : Except Fault Nat :=
  if pos + 4 ≤ block.length then .ok (ofBe (slice block pos (pos + 4))) else .error .wildRead

/-- The loops that look for a zero: the first one from `i` on, or the end of the block. -/
def zeroFrom (block : List UInt8) (i : Nat) : Except Fault Nat :=
  if i < block.length then do
    let byte ← readByte .panic block i
    if byte ≠ 0 then zeroFrom block (i + 1) else return i
  else return i
termination_by block.length - i

/-! ## The search -/

/-- The name of a node up to the first `@`, which is a byte of its own in every string. -/
def simpleName (name : String) : List UInt8 := (utf8 name).takeWhile (· ≠ 64)

/-- The target after the name of a node: the first node with the name stays it. -/
def entered (nodeName : String) (s : Scan) (bytes : List UInt8) : Option Int :=
  match fromUtf8 bytes with
  | some name => if s.targetDepth = none ∧ simpleName name = utf8 nodeName then some s.depth else s.targetDepth
  | none => s.targetDepth

namespace Parser

variable (p : Parser)

def getString (offset : Nat) : Except Fault (Option String) :=
  if offset ≥ p.stringsBlock.length then return none
  else do
    let stop ← zeroFrom p.stringsBlock offset
    let bytes ← readSlice .panic p.stringsBlock offset stop
    return fromUtf8 bytes

/-- A round of the loop that does not leave it, or leaves it with a slice of the block or with nothing. -/
abbrev Turn := Round Scan (Option (Part p.structBlock))

def beginNode (nodeName : String) (s : Scan) : Except Fault p.Turn := do
  let nameEnd ← zeroFrom p.structBlock s.pos
  if nameEnd ≥ p.structBlock.length then return .leave none
  else
    let bytes ← readSlice .panic p.structBlock s.pos nameEnd
    let targetDepth := entered nodeName s bytes
    let depth ← i32 (s.depth + 1)
    let pos ← align4 (nameEnd + 1)
    return .again ⟨pos, depth, targetDepth⟩

def endNode (s : Scan) : Except Fault p.Turn := do
  let depth ← i32 (s.depth - 1)
  match s.targetDepth with
  | some d => if depth ≤ d then return .leave none else return .again { s with depth }
  | none => return .again { s with depth }

/-- The property is directly inside the target and has the name. -/
def isWanted (propName : String) (s : Scan) (nameOffset : Nat) : Except Fault Bool :=
  match s.targetDepth with
  | none => return false
  | some d => do
    let inside ← i32 (d + 1)
    if s.depth = inside then
      let name ← p.getString nameOffset
      return name = some propName
    else return false

def prop (propName : String) (s : Scan) : Except Fault p.Turn := do
  let head ← usize (s.pos + 8)
  if head > p.structBlock.length then return .leave none
  else
    let dataSize ← readU32 p.structBlock s.pos
    let pos ← usize (s.pos + 4)
    let nameOffset ← readU32 p.structBlock pos
    let pos ← usize (pos + 4)
    let wanted ← p.isWanted propName s nameOffset
    let stop ← usize (pos + dataSize)
    if wanted then
      if stop > p.structBlock.length then return .leave none
      else
        let data ← readPart .panic p.structBlock pos stop
        return .leave (some data)
    else
      let pos ← align4 stop
      return .again { s with pos }

def turn (nodeName propName : String) (s : Scan) : Except Fault p.Turn :=
  if s.pos < p.structBlock.length then do
    let pos ← usize (s.pos + 4)
    if pos > p.structBlock.length then return .leave none
    else
      let token ← readU32 p.structBlock s.pos
      if token = 1 then p.beginNode nodeName { s with pos }
      else if token = 2 then p.endNode { s with pos }
      else if token = 3 then p.prop propName { s with pos }
      else if token = 4 then return .again { s with pos }
      else return .leave none
  else return .leave none

/-- A fault leaves the loop. -/
def round (nodeName propName : String) (s : Scan) :
    Round Scan (Except Fault (Option (Part p.structBlock))) :=
  match p.turn nodeName propName s with
  | .ok (.again s') => .again s'
  | .ok (.leave found) => .leave (.ok found)
  | .error fault => .leave (.error fault)

/-- The search ends, with this result. -/
def Finds (nodeName propName : String) (result : Except Fault (Option (Part p.structBlock))) : Prop :=
  Round.Leaves (p.round nodeName propName) .start result

end Parser

/-! ## No faults -/

section Checked

variable {block : List UInt8} {i n pos : Nat} {d : Int}

theorem usize_ok (small : n < 2 ^ 64) : usize n = .ok n := if_pos small

theorem i32_ok (lo : -2 ^ 31 ≤ d) (hi : d < 2 ^ 31) : i32 d = .ok d := if_pos ⟨lo, hi⟩

theorem align4_ok (small : n + 3 < 2 ^ 64) : align4 n = .ok ((n + 3) / 4 * 4) := by
  have rounded : n + 3 - (n + 3) % 4 = (n + 3) / 4 * 4 := by omega
  rw [align4, usize_ok small, ← rounded]
  rfl

theorem ofBe_lt (bytes : List UInt8) : ofBe bytes < 256 ^ bytes.length := by
  have bound := Mem.ofBytes_lt bytes.reverse
  rwa [List.length_reverse] at bound

theorem readU32_ok (inside : pos + 4 ≤ block.length) :
    readU32 block pos = .ok (ofBe (slice block pos (pos + 4))) := if_pos inside

theorem readU32_lt (inside : pos + 4 ≤ block.length) : ofBe (slice block pos (pos + 4)) < 2 ^ 32 := by
  have bound := ofBe_lt (slice block pos (pos + 4))
  rwa [slice_length (Nat.le_add_right _ _) inside, Nat.add_sub_cancel_left] at bound

theorem zeroFrom_ok (block : List UInt8) (i : Nat) :
    zeroFrom block i = .ok (i + ((block.drop i).takeWhile (· ≠ 0)).length) := by
  induction left : block.length - i generalizing i with
  | zero =>
    rw [zeroFrom, if_neg (by omega), List.drop_eq_nil_of_le (by omega)]
    rfl
  | succ n ih =>
    have inside : i < block.length := by omega
    rw [zeroFrom, if_pos inside, readByte_ok inside, List.drop_eq_getElem_cons inside]
    by_cases zero : block[i] = 0
    · simp [zero, bind, Except.bind, pure, Except.pure]
    · simp only [bind, Except.bind, ne_eq, zero, not_false_eq_true, if_true, ih (i + 1) (by omega)]
      simp only [List.takeWhile_cons, zero]
      simp only [not_false_eq_true, decide_true, if_true, List.length_cons]
      congr 1
      omega

end Checked

section Tokens

variable {p : Parser} {nodeName propName : String} {q : Nat} {depth d : Int} {target : Option Int}

/-- Where the name that starts at `q` ends. -/
def nameEnd (block : List UInt8) (q : Nat) : Nat := q + ((block.drop q).takeWhile (· ≠ 0)).length

theorem nameEnd_le {block : List UInt8} (inside : q ≤ block.length) : nameEnd block q ≤ block.length := by
  have short := (List.takeWhile_prefix (· ≠ (0 : UInt8)) (l := block.drop q)).length_le
  rw [List.length_drop] at short
  unfold nameEnd
  omega

theorem slice_nameEnd (block : List UInt8) (q : Nat) :
    slice block q (nameEnd block q) = (block.drop q).takeWhile (· ≠ 0) := by
  rw [slice, nameEnd, Nat.add_sub_cancel_left]
  exact (List.prefix_iff_eq_take.mp (List.takeWhile_prefix _)).symm

/-- The string at an offset of the strings block. -/
def Parser.stringAt (p : Parser) (offset : Nat) : Option String :=
  if offset ≥ p.stringsBlock.length then none else fromUtf8 ((p.stringsBlock.drop offset).takeWhile (· ≠ 0))

theorem getString_ok (p : Parser) (offset : Nat) : p.getString offset = .ok (p.stringAt offset) := by
  unfold Parser.getString Parser.stringAt
  split_ifs with outside
  · rfl
  · have inside : offset ≤ p.stringsBlock.length := by omega
    have stop : zeroFrom p.stringsBlock offset = .ok (nameEnd p.stringsBlock offset) := zeroFrom_ok _ _
    have bytes : readSlice Fault.panic p.stringsBlock offset (nameEnd p.stringsBlock offset) =
        .ok ((p.stringsBlock.drop offset).takeWhile (· ≠ 0)) := by
      rw [← slice_nameEnd]
      exact readSlice_ok (Nat.le_add_right _ _) (nameEnd_le inside)
    simp only [bind, Except.bind, stop, bytes]
    rfl

/-- The property at `q` has the name and is directly inside the target. -/
def Parser.Wanted (p : Parser) (propName : String) (target : Option Int) (depth : Int) (offset : Nat) : Prop :=
  target = some (depth - 1) ∧ p.stringAt offset = some propName

instance (p : Parser) (propName : String) (target : Option Int) (depth : Int) (offset : Nat) :
    Decidable (p.Wanted propName target depth offset) := inferInstanceAs (Decidable (_ ∧ _))

/-- The depths of a scan at `q`: every token took four bytes. -/
structure Shallow (q : Nat) (depth : Int) (target : Option Int) : Prop where
  lo : -q ≤ 4 * depth
  hi : 4 * depth ≤ q
  target_lo : ∀ d, target = some d → -q ≤ 4 * d
  target_hi : ∀ d, target = some d → 4 * d ≤ q

theorem beginNode_end (last : nameEnd p.structBlock q = p.structBlock.length) :
    p.beginNode nodeName ⟨q, depth, target⟩ = .ok (.leave none) := by
  have stop : zeroFrom p.structBlock q = .ok (nameEnd p.structBlock q) := zeroFrom_ok _ _
  unfold Parser.beginNode
  simp only [bind, Except.bind, stop, last, ge_iff_le, le_refl, if_true]
  rfl

theorem beginNode_ok (shallow : Shallow q depth target) (inside : q ≤ p.structBlock.length)
    (before : nameEnd p.structBlock q < p.structBlock.length) :
    p.beginNode nodeName ⟨q, depth, target⟩ = .ok (.again ⟨(nameEnd p.structBlock q + 4) / 4 * 4, depth + 1,
      entered nodeName ⟨q, depth, target⟩ ((p.structBlock.drop q).takeWhile (· ≠ 0))⟩) := by
  have small := p.struct_lt
  have lo := shallow.lo
  have hi := shallow.hi
  have stop : zeroFrom p.structBlock q = .ok (nameEnd p.structBlock q) := zeroFrom_ok _ _
  have bytes : readSlice Fault.panic p.structBlock q (nameEnd p.structBlock q) =
      .ok ((p.structBlock.drop q).takeWhile (· ≠ 0)) := by
    rw [← slice_nameEnd]
    exact readSlice_ok (Nat.le_add_right _ _) before.le
  have deeper : i32 (depth + 1) = .ok (depth + 1) := i32_ok (by omega) (by omega)
  have next := align4_ok (n := nameEnd p.structBlock q + 1) (by omega)
  unfold Parser.beginNode
  simp only [bind, Except.bind, stop, bytes, deeper, next, ge_iff_le, Nat.not_le.mpr before, if_false]
  rfl

theorem endNode_ok (shallow : Shallow q depth target) (inside : q ≤ p.structBlock.length) :
    p.endNode ⟨q, depth, target⟩ = .ok (if ∃ d, target = some d ∧ depth - 1 ≤ d then .leave none
      else .again ⟨q, depth - 1, target⟩) := by
  have small := p.struct_lt
  have lo := shallow.lo
  have hi := shallow.hi
  have higher : i32 (depth - 1) = .ok (depth - 1) := i32_ok (by omega) (by omega)
  unfold Parser.endNode
  simp only [bind, Except.bind, higher]
  cases target with
  | none => simp [pure, Except.pure]
  | some d =>
    simp only [Option.some.injEq, exists_eq_left']
    split_ifs <;> rfl

theorem isWanted_ok (propName : String) (shallow : Shallow q depth target) (inside : q ≤ p.structBlock.length)
    (offset : Nat) :
    p.isWanted propName ⟨q, depth, target⟩ offset = .ok (decide (p.Wanted propName target depth offset)) := by
  have small := p.struct_lt
  unfold Parser.isWanted Parser.Wanted
  cases target with
  | none => simp [pure, Except.pure]
  | some d =>
    have lo := shallow.target_lo d rfl
    have hi := shallow.target_hi d rfl
    have inner : i32 (d + 1) = .ok (d + 1) := i32_ok (by omega) (by omega)
    simp only [bind, Except.bind, inner, getString_ok]
    by_cases here : depth = d + 1
    · have parent : d = depth - 1 := by omega
      simp [here, pure, Except.pure]
    · have other : ¬ d = depth - 1 := by omega
      simp [here, other, pure, Except.pure]

/-- The size and the offset of the name in the property at `q`. -/
def propSize (block : List UInt8) (q : Nat) : Nat := ofBe (slice block q (q + 4))

def propName? (block : List UInt8) (q : Nat) : Nat := ofBe (slice block (q + 4) (q + 8))

theorem prop_short (inside : q ≤ p.structBlock.length) (short : q + 8 > p.structBlock.length) :
    p.prop propName ⟨q, depth, target⟩ = .ok (.leave none) := by
  have small := p.struct_lt
  have head : usize (q + 8) = .ok (q + 8) := usize_ok (by omega)
  unfold Parser.prop
  simp only [bind, Except.bind, head, short, if_true]
  rfl

/-- What comes behind the two words. -/
theorem prop_ok (shallow : Shallow q depth target) (room : q + 8 ≤ p.structBlock.length) :
    p.prop propName ⟨q, depth, target⟩ =
      if p.Wanted propName target depth (propName? p.structBlock q) then
        if q + 8 + propSize p.structBlock q > p.structBlock.length then .ok (.leave none)
        else do
          let data ← readPart .panic p.structBlock (q + 8) (q + 8 + propSize p.structBlock q)
          return .leave (some data)
      else .ok (.again ⟨(q + 8 + propSize p.structBlock q + 3) / 4 * 4, depth, target⟩) := by
  have small := p.struct_lt
  have head : usize (q + 8) = .ok (q + 8) := usize_ok (by omega)
  have middle : usize (q + 4) = .ok (q + 4) := usize_ok (by omega)
  have size : readU32 p.structBlock q = .ok (propSize p.structBlock q) := readU32_ok (by omega)
  have name : readU32 p.structBlock (q + 4) = .ok (propName? p.structBlock q) := readU32_ok (by omega)
  have size_lt : propSize p.structBlock q < 2 ^ 32 := readU32_lt (by omega)
  have wanted := isWanted_ok propName shallow (Nat.le_of_add_right_le room) (propName? p.structBlock q)
  have stop : usize (q + 8 + propSize p.structBlock q) = .ok (q + 8 + propSize p.structBlock q) :=
    usize_ok (by omega)
  have next := align4_ok (n := q + 8 + propSize p.structBlock q) (by omega)
  unfold Parser.prop
  simp only [bind, Except.bind, head, size, middle, name, wanted, stop, next, decide_eq_true_eq,
    gt_iff_lt, Nat.not_lt.mpr room, if_false]
  split_ifs <;> rfl

end Tokens

/-! ## Rounds -/

/-- What holds of the variables at the start of every round. -/
structure Scan.Fits (s : Scan) : Prop where
  aligned : s.pos % 4 = 0
  pos_le : s.pos ≤ 2 ^ 33 + 8
  shallow : Shallow s.pos s.depth s.targetDepth

section Rounds

variable {p : Parser} {nodeName propName : String} {s s' : Scan} {pos q : Nat} {depth : Int}
  {target : Option Int}

theorem Shallow.mono (h : Shallow pos depth target) (le : pos ≤ q) : Shallow q depth target where
  lo := by have := h.lo; omega
  hi := by have := h.hi; omega
  target_lo d eq := by have := h.target_lo d eq; omega
  target_hi d eq := by have := h.target_hi d eq; omega

theorem fits_start : Scan.start.Fits :=
  ⟨rfl, by decide, ⟨by decide, by decide, nofun, nofun⟩⟩

theorem turn_outside (outside : p.structBlock.length < pos + 4) (fits : pos ≤ 2 ^ 33 + 8) :
    p.turn nodeName propName ⟨pos, depth, target⟩ = .ok (.leave none) := by
  have next : usize (pos + 4) = .ok (pos + 4) := usize_ok (by omega)
  unfold Parser.turn
  simp only [bind, Except.bind, next, gt_iff_lt, outside, if_true]
  split_ifs <;> rfl

/-- The token at a position. -/
def token (block : List UInt8) (pos : Nat) : Nat := ofBe (slice block pos (pos + 4))

theorem turn_inside (inside : pos + 4 ≤ p.structBlock.length) :
    p.turn nodeName propName ⟨pos, depth, target⟩ =
      if token p.structBlock pos = 1 then p.beginNode nodeName ⟨pos + 4, depth, target⟩
      else if token p.structBlock pos = 2 then p.endNode ⟨pos + 4, depth, target⟩
      else if token p.structBlock pos = 3 then p.prop propName ⟨pos + 4, depth, target⟩
      else if token p.structBlock pos = 4 then .ok (.again ⟨pos + 4, depth, target⟩)
      else .ok (.leave none) := by
  have small := p.struct_lt
  have next : usize (pos + 4) = .ok (pos + 4) := usize_ok (by omega)
  have read : readU32 p.structBlock pos = .ok (token p.structBlock pos) := readU32_ok inside
  have before : pos < p.structBlock.length := by omega
  unfold Parser.turn
  simp only [bind, Except.bind, next, read, before, if_true, gt_iff_lt, Nat.not_lt.mpr inside, if_false]
  rfl

/-- No fault, and on from `q` or later. -/
def Steps (p : Parser) (q : Nat) (result : Except Fault p.Turn) : Prop :=
  ∃ r, result = .ok r ∧ ∀ s', r = .again s' → s'.Fits ∧ q ≤ s'.pos

theorem steps_leave {found : Option (Part p.structBlock)} : Steps p q (.ok (.leave found)) := ⟨_, rfl, nofun⟩

theorem steps_again {n : Nat} (aligned : n % 4 = 0) (le : n ≤ 2 ^ 33 + 8) (shallow : Shallow n depth target)
    (later : q ≤ n) : Steps p q (.ok (.again ⟨n, depth, target⟩)) := by
  refine ⟨_, rfl, ?_⟩
  rintro _ ⟨⟩
  exact ⟨⟨aligned, le, shallow⟩, later⟩

/-- A name entered as the target is at the depth of its node. -/
theorem entered_eq (nodeName : String) (s : Scan) (bytes : List UInt8) :
    entered nodeName s bytes = s.targetDepth ∨ entered nodeName s bytes = some s.depth := by
  unfold entered
  cases fromUtf8 bytes with
  | none => exact .inl rfl
  | some name =>
    dsimp only
    split_ifs
    · exact .inr rfl
    · exact .inl rfl

theorem Shallow.beginNode {n : Nat} (h : Shallow pos depth target) (bytes : List UInt8) (le : pos + 4 ≤ n) :
    Shallow n (depth + 1) (entered nodeName ⟨q, depth, target⟩ bytes) := by
  have lo := h.lo
  have hi := h.hi
  have bounds : ∀ d, entered nodeName ⟨q, depth, target⟩ bytes = some d → -pos ≤ 4 * d ∧ 4 * d ≤ pos := by
    intro d eq
    rcases entered_eq nodeName ⟨q, depth, target⟩ bytes with old | new
    · have eq := old.symm.trans eq
      exact ⟨h.target_lo d eq, h.target_hi d eq⟩
    · cases new.symm.trans eq
      exact ⟨lo, hi⟩
  refine ⟨by omega, by omega, fun d eq => ?_, fun d eq => ?_⟩
  · have := bounds d eq
    omega
  · have := bounds d eq
    omega

theorem Shallow.endNode (h : Shallow pos depth target) : Shallow (pos + 4) (depth - 1) target := by
  have later := h.mono (Nat.le_add_right pos 4)
  have lo := h.lo
  have hi := h.hi
  exact ⟨by omega, by omega, later.target_lo, later.target_hi⟩

theorem beginNode_steps (shallow : Shallow pos depth target) (inside : pos + 4 ≤ p.structBlock.length) :
    Steps p (pos + 4) (p.beginNode nodeName ⟨pos + 4, depth, target⟩) := by
  have small := p.struct_lt
  have start : pos + 4 ≤ nameEnd p.structBlock (pos + 4) := Nat.le_add_right _ _
  rcases Nat.lt_or_ge (nameEnd p.structBlock (pos + 4)) p.structBlock.length with before | last
  · rw [beginNode_ok (shallow.mono (Nat.le_add_right _ _)) inside before]
    exact steps_again (by omega) (by omega) (shallow.beginNode _ (by omega)) (by omega)
  · rw [beginNode_end (Nat.le_antisymm (nameEnd_le inside) last)]
    exact steps_leave

theorem endNode_steps (aligned : pos % 4 = 0) (shallow : Shallow pos depth target)
    (inside : pos + 4 ≤ p.structBlock.length) : Steps p (pos + 4) (p.endNode ⟨pos + 4, depth, target⟩) := by
  have small := p.struct_lt
  rw [endNode_ok (shallow.mono (Nat.le_add_right _ _)) inside]
  split_ifs
  · exact steps_leave
  · exact steps_again (by omega) (by omega) shallow.endNode le_rfl

theorem prop_steps (shallow : Shallow pos depth target) (inside : pos + 4 ≤ p.structBlock.length) :
    Steps p (pos + 4) (p.prop propName ⟨pos + 4, depth, target⟩) := by
  have small := p.struct_lt
  by_cases room : pos + 4 + 8 ≤ p.structBlock.length
  · have size_lt : propSize p.structBlock (pos + 4) < 2 ^ 32 := readU32_lt (by omega)
    rw [prop_ok (shallow.mono (Nat.le_add_right _ _)) room]
    split_ifs with wanted long
    · exact steps_leave
    · rw [readPart_ok (Nat.le_add_right _ _) (Nat.le_of_not_lt long)]
      exact steps_leave
    · exact steps_again (by omega) (by omega) (shallow.mono (by omega)) (by omega)
  · rw [prop_short inside (Nat.lt_of_not_le room)]
    exact steps_leave

/-- A turn has no fault, and goes on from a later position. -/
theorem turn_steps (p : Parser) (nodeName propName : String) (fits : s.Fits) :
    Steps p (s.pos + 4) (p.turn nodeName propName s) := by
  obtain ⟨pos, depth, target⟩ := s
  obtain ⟨aligned, pos_le, shallow⟩ := fits
  have small := p.struct_lt
  dsimp only at aligned pos_le shallow ⊢
  by_cases inside : pos + 4 ≤ p.structBlock.length
  · rw [turn_inside inside]
    split_ifs
    · exact beginNode_steps shallow inside
    · exact endNode_steps aligned shallow inside
    · exact prop_steps shallow inside
    · exact steps_again (by omega) (by omega) (shallow.mono (Nat.le_add_right _ _)) le_rfl
    · exact steps_leave
  · rw [turn_outside (Nat.lt_of_not_le inside) pos_le]
    exact steps_leave

theorem round_again (fits : s.Fits) (turn : p.round nodeName propName s = .again s') :
    s'.Fits ∧ s.pos + 4 ≤ s'.pos := by
  obtain ⟨r, ok, later⟩ := turn_steps p nodeName propName fits
  unfold Parser.round at turn
  rw [ok] at turn
  cases r with
  | leave found => cases turn
  | again s'' =>
    cases turn
    exact later _ rfl

theorem round_leave {result : Except Fault (Option (Part p.structBlock))} (fits : s.Fits)
    (turn : p.round nodeName propName s = .leave result) : ∃ found, result = .ok found := by
  obtain ⟨r, ok, -⟩ := turn_steps p nodeName propName fits
  unfold Parser.round at turn
  rw [ok] at turn
  cases r with
  | leave found =>
    cases turn
    exact ⟨found, rfl⟩
  | again s'' => cases turn

/-- On arbitrary blocks the search ends, always in the same way and without a fault. What it finds is a part
of the structure block. -/
theorem find_safe (p : Parser) (nodeName propName : String) : ∃ found, p.Finds nodeName propName (.ok found) ∧
    ∀ result, p.Finds nodeName propName result → result = .ok found := by
  have ends : ∃ result, p.Finds nodeName propName result := by
    refine Round.exists_leaves (I := Scan.Fits) (fun s => 2 ^ 34 - s.pos) fits_start fun s s' fits turn => ?_
    obtain ⟨fits', later⟩ := round_again fits turn
    have le := fits.pos_le
    exact ⟨fits', by omega⟩
  obtain ⟨result, finds⟩ := ends
  have ok : ∃ found, result = .ok found :=
    finds.post fits_start (fun s s' fits turn => (round_again fits turn).1) fun s b fits turn => round_leave fits turn
  obtain ⟨found, rfl⟩ := ok
  exact ⟨found, finds, fun result other => other.unique finds⟩

end Rounds

end CapsuleOS.Fdt
