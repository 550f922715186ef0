import CapsuleOS.Syscall.Dispatch

/-!
# The system call wrappers of libcapsule

The functions of `syscalls.rs`, each on the registers it loads and the word it finds in `x0` afterwards,
and what becomes of the caller's values on the way to the handler and of the handler's result on the way
back.
-/
namespace CapsuleOS.Syscall

open Lib

/-- A `&[T]`, a `&mut [T]` or a `&str`: its address and its length. -/
structure Slice where
  ptr : Word
  len : Word
  deriving DecidableEq

/-- The stack of a wrapper: where the arrays `pairs` and `temp` are. -/
structure Stack where
  pairs : Word
  temp : Word
  fits : pairs.toNat + 256 ≤ 2 ^ 64

/-- What a wrapper runs on: the caller's memory and stack and the kernel's handle tables. -/
structure Caller where
  mem : Mem
  stack : Stack
  tables : Tables

/-- The macro `syscall!`. -/
def syscall (c : Caller) (num : BitVec 32) (a0 a1 a2 a3 a4 a5 : Word) : Kernel Word :=
  syncEl0Handler c.tables c.mem ⟨a0, a1, a2, a3, a4, a5, num.setWidth 64⟩

/-- `if (ret as isize) < 0 { Err(Status::from_raw(ret as i32)) } else { Ok(ret) }`, which all wrappers
but two end with. -/
def signed {α : Type} (value : Word → α) (ret : Word) : Except Status α :=
  if ret.toInt < 0 then .error (Status.fromRaw (ret.setWidth 32)) else .ok (value ret)

section Wrappers

variable (c : Caller)

/-- The only wrapper that takes zero for the error. -/
def channelCreate : Kernel (Except Status Word) := do
  let ret ← syscall c syscallChannelCreate 0 0 0 0 0 0
  return if ret = 0 then .error (Status.fromRaw (ret.setWidth 32)) else .ok ret

def channelRead (handle : Word) (buf handles : Slice) : Kernel (Except Status Word) := do
  return signed id (← syscall c syscallChannelRead handle buf.ptr buf.len handles.ptr handles.len 0)

def channelWrite (handle : Word) (buf handles : Slice) : Kernel (Except Status Word) := do
  return signed id (← syscall c syscallChannelWrite handle buf.ptr buf.len handles.ptr handles.len 0)

def channelRegister (name : Slice) (handle : Word) : Kernel (Except Status Unit) := do
  return signed (fun _ => ()) (← syscall c syscallChannelRegister name.ptr name.len handle 0 0 0)

def channelLookup (name : Slice) : Kernel (Except Status Word) := do
  return signed id (← syscall c syscallChannelLookup name.ptr name.len 0 0 0 0)

def close (handle : Word) : Kernel (Except Status Unit) := do
  return signed (fun _ => ()) (← syscall c syscallClose handle 0 0 0 0 0)

/-- The word itself, as an `isize`. -/
def yieldCpu : Kernel Word := syscall c syscallYield 0 0 0 0 0 0

def vmoCreate (size : Word) : Kernel (Except Status Word) := do
  return signed id (← syscall c syscallVmoCreate size 0 0 0 0 0)

def vmoCreateChild (parentHandle offset size : Word) : Kernel (Except Status Word) := do
  return signed id (← syscall c syscallVmoCreateChild parentHandle offset size 0 0 0)

def vmoRead (handle offset : Word) (buf : Slice) : Kernel (Except Status Word) := do
  return signed id (← syscall c syscallVmoRead handle offset buf.ptr buf.len 0 0)

def vmoWrite (handle offset : Word) (buf : Slice) : Kernel (Except Status Word) := do
  return signed id (← syscall c syscallVmoWrite handle offset buf.ptr buf.len 0 0)

def handleDuplicate (handle : Word) (rights : BitVec 32) : Kernel (Except Status Word) := do
  return signed id (← syscall c syscallHandleDuplicate handle (rights.setWidth 64) 0 0 0 0)

def vmarMapSelf (vmoHandle vaddrOffset size : Word) (flags : BitVec 32) : Kernel (Except Status Word) := do
  return signed id (← syscall c syscallVmarMapSelf vmoHandle vaddrOffset size (flags.setWidth 64) 0 0)

def vmarUnmap (vaddrOffset size : Word) : Kernel (Except Status Unit) := do
  return signed (fun _ => ()) (← syscall c syscallVmarUnmap vaddrOffset size 0 0 0 0)

def processCreate (name : Slice) : Kernel (Except Status Word) := do
  return signed id (← syscall c syscallProcessCreate name.ptr name.len 0 0 0 0)

def loadBinary (vmoHandle : Word) (name : Slice) (offset : Word) : Kernel (Except Status Word) := do
  return signed id (← syscall c syscallLoadBinary vmoHandle name.ptr name.len offset 0 0)

/-- `pid` is an `i64` and `options` an `i32`. -/
def wait4 (pid statusPtr : Word) (options : BitVec 32) : Kernel (Except Status Word) := do
  return signed id (← syscall c syscallWait4 pid statusPtr (options.signExtend 64) 0 0 0)

/-- A hexadecimal digit in upper case. -/
def hexDigit (b : BitVec 8) : UInt8 := UInt8.ofBitVec (if b < 10 then 48 + b else 65 + (b - 10))

/-- The array `temp` of `service_spawn`: the report with the low 32 bits of the result. -/
def spawnReport (ret : Word) : List UInt8 :=
  ([83, 80, 65, 87, 78, 32, 82, 69, 84, 85, 82, 78, 32] : List UInt8)
    ++ (List.range 8).map (fun i => hexDigit ((ret >>> (4 * (7 - i)) &&& 0xF).setWidth 8))
    ++ 10 :: List.replicate 10 0

/-- Prints a report between the call and its own return; what the print returns is dropped. -/
def serviceSpawn (descPtr : Word) : Kernel (Except Status Word) := do
  let ret ← syscall c syscallServiceSpawn descPtr 0 0 0 0 0
  let reporting := { c with mem := c.mem.store c.stack.temp.toNat (spawnReport ret) }
  let _ ← syscall reporting syscallWrite 1 c.stack.temp 22 0 0 0
  return signed id ret

def maxPairs : Nat := 16

/-- The array `pairs` of `spawn`: sixteen rows, an address and a length in each of the first. -/
def argvPairs (argv : List Slice) : List UInt8 :=
  (List.range maxPairs).flatMap fun i =>
    match argv[i]? with
    | some arg => leBytes arg.ptr ++ leBytes arg.len
    | none => List.replicate 16 0

def spawn (path : Slice) (argv : List Slice) : Kernel (Except Status Word) := do
  let filled := { c with mem := c.mem.store c.stack.pairs.toNat (argvPairs argv) }
  let argc := BitVec.ofNat 64 argv.length
  let argvPtr := if argc > 0 then c.stack.pairs else 0
  return signed id (← syscall filled syscallSpawn path.ptr path.len argvPtr argc 0 0)

def procMgmt (cmd : BitVec 32) (arg1 arg2 arg3 : Word) : Kernel (Except Status Word) := do
  return signed id (← syscall c syscallProcMgmt (cmd.setWidth 64) arg1 arg2 arg3 0 0)

def threadCreate (processHandle : BitVec 32) (entryPc arg0 arg1 stackSize : Word) :
    Kernel (Except Status Word) := do
  return signed id (← syscall c syscallThreadCreate (processHandle.setWidth 64) entryPc arg0 arg1 stackSize 0)

def threadStart (threadHandle : BitVec 32) : Kernel (Except Status Unit) := do
  return signed (fun _ => ()) (← syscall c syscallThreadStart (threadHandle.setWidth 64) 0 0 0 0 0)

end Wrappers

end CapsuleOS.Syscall
