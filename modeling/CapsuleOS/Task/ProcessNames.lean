import CapsuleOS.Lib.Access
import CapsuleOS.Rootfs.Image
import CapsuleOS.Task.Reaping

/-!
# Names of processes

A process has a reference to its name, not a copy. A name that comes from a process is copied to one of
eight slots, which are taken in turn; that of a service stays in the buffer of the call that launched it,
on the kernel stack. An entry of the list of processes has 108 bytes for the name.
-/
namespace CapsuleOS

open Lib Rootfs

def nameSlotCount : Nat := 8
def nameSlotCap : Nat := 128

/-- Where a name is: in the kernel image, in a slot, or in a stack frame. -/
inductive NameRef where
  | text (bytes : List UInt8)
  | slot (idx : Fin nameSlotCount) (len : Nat)
  | frame (addr len : Nat)

/-- The length that belongs to the reference. -/
def NameRef.len : NameRef → Nat
  | .text bytes => bytes.length
  | .slot _ len => len
  | .frame _ len => len

/-- The slots and the kernel stacks. The cursor is a number without bound here; it is used modulo 8. -/
structure Names where
  slots : Fin nameSlotCount → Mem
  lens : Fin nameSlotCount → Nat
  cursor : Nat
  stack : Mem

abbrev NamesM := Prog Names Status

namespace Names

variable {n n' : Names} {name : String} {ref : NameRef}

def read (n : Names) : NameRef → List UInt8
  | .text bytes => bytes
  | .slot idx len => (n.slots idx).load 0 len
  | .frame addr len => n.stack.load addr len

@[simp] theorem read_length (n : Names) (ref : NameRef) : (n.read ref).length = ref.len := by
  cases ref <;> simp [read, NameRef.len]

/-- The slot whose turn it is. -/
def next (n : Names) : Fin nameSlotCount := ⟨n.cursor % nameSlotCount, Nat.mod_lt _ (by decide)⟩

/-- Write over the beginning of the slot. -/
def fill (bytes : List UInt8) (n : Names) : Names where
  slots := Function.update n.slots n.next ((n.slots n.next).store 0 bytes)
  lens := Function.update n.lens n.next bytes.length
  cursor := n.cursor + 1
  stack := n.stack

/-! ## The three ways to keep a name -/

def internName (name : String) : NamesM NameRef := do
  if nameSlotCap ≤ (utf8 name).length then Prog.throw .invalidArgs
  else
    let idx := (← Prog.get).next
    Prog.modify (fill (utf8 name))
    let n ← Prog.get
    return .slot idx (n.lens idx)

/-- The `name_buf` of `sys_service_spawn`, at some place of its stack. -/
def nameBuf (addr : Nat) (name : String) : NamesM NameRef := do
  let buf := utf8 name ++ List.replicate (64 - (utf8 name).length) 0
  Prog.modify fun n => { n with stack := n.stack.store addr buf }
  return .frame addr (utf8 name).length

/-- A literal. -/
def literal (name : String) : NamesM NameRef := return .text (utf8 name)

/-- The reference leads to the name, at least for now; without a reference nothing is written. -/
structure Keeps (keep : String → NamesM NameRef) : Prop where
  ok : ∀ {name n ref n'}, keep name n = .ok ref n' → n'.read ref = utf8 name
  err : ∀ {name n e n'}, keep name n = .err e n' → n' = n

theorem internName_long (long : nameSlotCap ≤ (utf8 name).length) :
    internName name n = .err .invalidArgs n := by
  unfold internName
  rw [if_pos long]
  rfl

theorem internName_fits (fits : (utf8 name).length < nameSlotCap) :
    internName name n = .ok (.slot n.next (utf8 name).length) (n.fill (utf8 name)) := by
  have len : (n.fill (utf8 name)).lens n.next = (utf8 name).length := Function.update_self _ _ _
  unfold internName
  rw [if_neg (not_le.mpr fits)]
  simp only [Prog.bind_apply, Prog.get, Prog.modify, len]
  rfl

theorem keeps_internName : Keeps internName where
  ok {name n ref n'} run := by
    by_cases fits : (utf8 name).length < nameSlotCap
    · cases (internName_fits fits).symm.trans run
      simp only [read, fill, Function.update_self, Mem.load_store_same]
    · cases (internName_long (not_lt.mp fits)).symm.trans run
  err {name n e n'} run := by
    by_cases fits : (utf8 name).length < nameSlotCap
    · cases (internName_fits fits).symm.trans run
    · cases (internName_long (not_lt.mp fits)).symm.trans run
      rfl

theorem keeps_nameBuf (addr : Nat) : Keeps (nameBuf addr) where
  ok {name n ref n'} run := by
    cases run
    have split := Mem.load_store_same n.stack addr
      (utf8 name ++ List.replicate (64 - (utf8 name).length) 0)
    rw [List.length_append, load_split] at split
    exact (List.append_inj split (by simp)).1
  err run := nomatch run

theorem keeps_literal : Keeps literal where
  ok run := by
    cases run
    rfl
  err run := nomatch run

end Names

/-! ## Entries of the list -/

def ProcessState.toU32 : ProcessState → Nat
  | .initial => 0
  | .running => 1
  | .zombie => 2
  | .dead => 3

structure ProcListEntry where
  pid : Nat
  parentPid : Nat
  state : Nat
  name : List UInt8

/-- The bytes of an entry that are left for the name. -/
def entryNameRoom : Nat := 108

namespace ProcListEntry

variable {e : ProcListEntry}

/-- The only error is a panic. -/
def serialize (e : ProcListEntry) : Except Unit (List UInt8) := do
  let buf := List.replicate 128 0
  let buf ← writeSlice () buf 0 8 (Mem.toBytes 8 e.pid)
  let buf ← writeSlice () buf 8 16 (Mem.toBytes 8 e.parentPid)
  let buf ← writeSlice () buf 16 20 (Mem.toBytes 4 e.state)
  let nameLen := min e.name.length 112
  let name ← readSlice () e.name 0 nameLen
  writeSlice () buf 20 (20 + nameLen) name

/-- The numbers at the beginning of an entry. -/
def numbers (e : ProcListEntry) : List UInt8 :=
  Mem.toBytes 8 e.pid ++ Mem.toBytes 8 e.parentPid ++ Mem.toBytes 4 e.state

/-- The 128 bytes of an entry: the numbers, the name, and zeros. -/
def image (e : ProcListEntry) : List UInt8 :=
  e.numbers ++ e.name.take entryNameRoom ++ List.replicate (entryNameRoom - e.name.length) 0

theorem numbers_length (e : ProcListEntry) : e.numbers.length = 20 := by
  simp [numbers]

theorem image_length (e : ProcListEntry) : e.image.length = 128 := by
  simp only [image, List.length_append, numbers_length, List.length_take, List.length_replicate,
    entryNameRoom]
  omega

/-- The numbers fill the buffer from its beginning, and the name is written behind them. -/
theorem serialize_eq (e : ProcListEntry) :
    e.serialize = writeSlice () (e.numbers ++ List.replicate entryNameRoom 0) 20
      (20 + min e.name.length 112) (e.name.take (min e.name.length 112)) := by
  have pid : writeSlice () ([] ++ List.replicate 128 0) 0 8 (Mem.toBytes 8 e.pid) =
      .ok ([] ++ Mem.toBytes 8 e.pid ++ List.replicate (128 - (Mem.toBytes 8 e.pid).length) 0) :=
    writeSlice_append rfl (by simp) (by simp)
  rw [List.nil_append, List.nil_append, Mem.toBytes_length] at pid
  have parent : writeSlice () (Mem.toBytes 8 e.pid ++ List.replicate 120 0) 8 16
      (Mem.toBytes 8 e.parentPid) =
        .ok (Mem.toBytes 8 e.pid ++ Mem.toBytes 8 e.parentPid ++ List.replicate 112 0) :=
    writeSlice_append (by simp) (by simp) (by simp)
  have state : writeSlice () (Mem.toBytes 8 e.pid ++ Mem.toBytes 8 e.parentPid ++ List.replicate 112 0) 16 20
      (Mem.toBytes 4 e.state) = .ok (e.numbers ++ List.replicate entryNameRoom 0) :=
    writeSlice_append (by simp) (by simp) (by simp)
  have name : readSlice () e.name 0 (min e.name.length 112) = .ok (e.name.take (min e.name.length 112)) :=
    readSlice_ok (Nat.zero_le _) (Nat.min_le_left _ _)
  simp only [serialize, bind, Except.bind, pid, parent, state, name]

theorem serialize_ok (fits : e.name.length ≤ entryNameRoom) : e.serialize = .ok e.image := by
  have all : min e.name.length 112 = e.name.length := by
    unfold entryNameRoom at fits
    omega
  rw [serialize_eq, all, List.take_length, writeSlice_append e.numbers_length.symm rfl fits, image,
    List.take_of_length_le fits]

/-- The clamp is wider than what is left of the buffer. -/
theorem serialize_panics (long : entryNameRoom < e.name.length) : e.serialize = .error () := by
  have length : (e.numbers ++ List.replicate entryNameRoom 0 : List UInt8).length = 128 := by
    rw [List.length_append, numbers_length, List.length_replicate]
    rfl
  unfold entryNameRoom at long
  rw [serialize_eq, writeSlice_panic (by omega)]

end ProcListEntry

end CapsuleOS
