import CapsuleOS.Syscall.Wrappers

/-!
# The system call boundary

A wrapper and the dispatcher are written by hand on the two sides of the registers. `Wrapper.RoundTrips`
says that they agree: every value of the wrapper is at the handler parameter of the same meaning, and
the wrapper returns what the handler returned.
-/
namespace CapsuleOS.Syscall

open Lib

/-- What an argument of a wrapper, or a parameter of a handler, stands for. -/
inductive Param where
  | handle
  | vmoHandle
  | parentHandle
  | processHandle
  | threadHandle
  | bufPtr
  | bufLen
  | handlesPtr
  | handlesLen
  | namePtr
  | nameLen
  | pathPtr
  | pathLen
  | argvCount
  | descPtr
  | size
  | offset
  | vaddrOffset
  | flags
  | rights
  | pid
  | statusPtr
  | options
  | cmd
  | arg1
  | arg2
  | arg3
  | entry
  | threadArg0
  | threadArg1
  | stackSize
  | stackTop
  deriving DecidableEq

/-- A call of a wrapper, with its arguments. -/
inductive Wrapper where
  | channelCreate
  | channelRead (handle : Word) (buf handles : Slice)
  | channelWrite (handle : Word) (buf handles : Slice)
  | channelRegister (name : Slice) (handle : Word)
  | channelLookup (name : Slice)
  | close (handle : Word)
  | yieldCpu
  | vmoCreate (size : Word)
  | vmoCreateChild (parentHandle offset size : Word)
  | vmoRead (handle offset : Word) (buf : Slice)
  | vmoWrite (handle offset : Word) (buf : Slice)
  | handleDuplicate (handle : Word) (rights : BitVec 32)
  | vmarMapSelf (vmoHandle vaddrOffset size : Word) (flags : BitVec 32)
  | vmarUnmap (vaddrOffset size : Word)
  | processCreate (name : Slice)
  | loadBinary (vmoHandle : Word) (name : Slice) (offset : Word)
  | wait4 (pid statusPtr : Word) (options : BitVec 32)
  | serviceSpawn (descPtr : Word)
  | spawn (path : Slice) (argv : List Slice)
  | procMgmt (cmd : BitVec 32) (arg1 arg2 arg3 : Word)
  | threadCreate (processHandle : BitVec 32) (entryPc arg0 arg1 stackSize : Word)
  | threadStart (threadHandle : BitVec 32)

/-- `Ok(())` as the word zero. -/
def noValue (r : Except Status Unit) : Except Status Word := r.map fun _ => 0

def Wrapper.program (c : Caller) : Wrapper → Kernel (Except Status Word)
  | channelCreate => Syscall.channelCreate c
  | channelRead handle buf handles => Syscall.channelRead c handle buf handles
  | channelWrite handle buf handles => Syscall.channelWrite c handle buf handles
  | channelRegister name handle => do return noValue (← Syscall.channelRegister c name handle)
  | channelLookup name => Syscall.channelLookup c name
  | close handle => do return noValue (← Syscall.close c handle)
  | yieldCpu => do return .ok (← Syscall.yieldCpu c)
  | vmoCreate size => Syscall.vmoCreate c size
  | vmoCreateChild parentHandle offset size => Syscall.vmoCreateChild c parentHandle offset size
  | vmoRead handle offset buf => Syscall.vmoRead c handle offset buf
  | vmoWrite handle offset buf => Syscall.vmoWrite c handle offset buf
  | handleDuplicate handle rights => Syscall.handleDuplicate c handle rights
  | vmarMapSelf vmoHandle vaddrOffset size flags => Syscall.vmarMapSelf c vmoHandle vaddrOffset size flags
  | vmarUnmap vaddrOffset size => do return noValue (← Syscall.vmarUnmap c vaddrOffset size)
  | processCreate name => Syscall.processCreate c name
  | loadBinary vmoHandle name offset => Syscall.loadBinary c vmoHandle name offset
  | wait4 pid statusPtr options => Syscall.wait4 c pid statusPtr options
  | serviceSpawn descPtr => Syscall.serviceSpawn c descPtr
  | spawn path argv => Syscall.spawn c path argv
  | procMgmt cmd arg1 arg2 arg3 => Syscall.procMgmt c cmd arg1 arg2 arg3
  | threadCreate processHandle entryPc arg0 arg1 stackSize =>
    Syscall.threadCreate c processHandle entryPc arg0 arg1 stackSize
  | threadStart threadHandle => do return noValue (← Syscall.threadStart c threadHandle)

def Slice.as (s : Slice) (ptr len : Param) : List (Param × Word) := [(ptr, s.ptr), (len, s.len)]

/-- The arguments of a wrapper by what they mean. -/
def Wrapper.values : Wrapper → List (Param × Word)
  | channelCreate | yieldCpu => []
  | channelRead handle buf handles | channelWrite handle buf handles =>
    (.handle, handle) :: buf.as .bufPtr .bufLen ++ handles.as .handlesPtr .handlesLen
  | channelRegister name handle => (.handle, handle) :: name.as .namePtr .nameLen
  | channelLookup name | processCreate name => name.as .namePtr .nameLen
  | close handle => [(.handle, handle)]
  | vmoCreate size => [(.size, size)]
  | vmoCreateChild parentHandle offset size =>
    [(.parentHandle, parentHandle), (.offset, offset), (.size, size)]
  | vmoRead handle offset buf | vmoWrite handle offset buf =>
    (.handle, handle) :: (.offset, offset) :: buf.as .bufPtr .bufLen
  | handleDuplicate handle rights => [(.handle, handle), (.rights, rights.setWidth 64)]
  | vmarMapSelf vmoHandle vaddrOffset size flags =>
    [(.vmoHandle, vmoHandle), (.vaddrOffset, vaddrOffset), (.size, size), (.flags, flags.setWidth 64)]
  | vmarUnmap vaddrOffset size => [(.vaddrOffset, vaddrOffset), (.size, size)]
  | loadBinary vmoHandle name offset =>
    (.vmoHandle, vmoHandle) :: (.offset, offset) :: name.as .namePtr .nameLen
  | wait4 pid statusPtr options =>
    [(.pid, pid), (.statusPtr, statusPtr), (.options, options.signExtend 64)]
  | serviceSpawn descPtr => [(.descPtr, descPtr)]
  | spawn path argv => (.argvCount, BitVec.ofNat 64 argv.length) :: path.as .pathPtr .pathLen
  | procMgmt cmd arg1 arg2 arg3 =>
    [(.cmd, cmd.setWidth 64), (.arg1, arg1), (.arg2, arg2), (.arg3, arg3)]
  | threadCreate processHandle entryPc arg0 arg1 stackSize =>
    [(.processHandle, processHandle.setWidth 64), (.entry, entryPc), (.threadArg0, arg0),
      (.threadArg1, arg1), (.stackSize, stackSize)]
  | threadStart threadHandle => [(.threadHandle, threadHandle.setWidth 64)]

/-- The strings a wrapper passes on. -/
def Wrapper.argv : Wrapper → List Slice
  | spawn _ argv => argv
  | _ => []

/-- The handles that a wrapper takes as `usize` and the kernel as `u32`. -/
def Wrapper.wideHandles : Wrapper → List Word
  | channelRead handle _ _ | channelWrite handle _ _ | channelRegister _ handle | close handle
  | vmoCreateChild handle _ _ | vmoRead handle _ _ | vmoWrite handle _ _ | handleDuplicate handle _
  | vmarMapSelf handle _ _ _ | loadBinary handle _ _ => [handle]
  | _ => []

/-- The parameters of the handlers behind the wrappers, by what the handler takes them for. -/
def Call.params : Call → List (Param × Word)
  | .sysVmarMapSelf _ vmoHandleRaw vaddrOffset size flagsRaw =>
    [(.vmoHandle, vmoHandleRaw.setWidth 64), (.vaddrOffset, vaddrOffset), (.size, size),
      (.flags, flagsRaw.setWidth 64)]
  | .sysVmarUnmap vaddrOffset size => [(.vaddrOffset, vaddrOffset), (.size, size)]
  | .sysVmoCreate _ size => [(.size, size)]
  | .sysVmoCreateChild _ parentVmoHandleRaw offset size =>
    [(.parentHandle, parentVmoHandleRaw.setWidth 64), (.offset, offset), (.size, size)]
  | .sysVmoRead _ handleRaw vmoOffset userVa len | .sysVmoWrite _ handleRaw vmoOffset userVa len =>
    [(.handle, handleRaw.setWidth 64), (.offset, vmoOffset), (.bufPtr, userVa), (.bufLen, len)]
  | .sysChannelRead _ handleRaw bufPtr bufLen handlesPtr handlesLen
  | .sysChannelWrite _ handleRaw bufPtr bufLen handlesPtr handlesLen =>
    [(.handle, handleRaw.setWidth 64), (.bufPtr, bufPtr), (.bufLen, bufLen), (.handlesPtr, handlesPtr),
      (.handlesLen, handlesLen)]
  | .sysChannelRegister _ namePtr nameLen handleRaw =>
    [(.namePtr, namePtr), (.nameLen, nameLen), (.handle, handleRaw.setWidth 64)]
  | .sysChannelLookup _ namePtr nameLen | .sysProcessCreate _ namePtr nameLen =>
    [(.namePtr, namePtr), (.nameLen, nameLen)]
  | .duplicateHandle _ hv requiredRights =>
    [(.handle, hv.setWidth 64), (.rights, requiredRights.setWidth 64)]
  | .close _ hv => [(.handle, hv.setWidth 64)]
  | .sysThreadCreate _ processHandleRaw namePtr nameLen entry stackTop =>
    [(.processHandle, processHandleRaw.setWidth 64), (.namePtr, namePtr), (.nameLen, nameLen),
      (.entry, entry), (.stackTop, stackTop)]
  | .sysThreadStart _ threadHandleRaw => [(.threadHandle, threadHandleRaw.setWidth 64)]
  | .sysLoadBinary _ vmoHandleRaw namePtr nameLen vmoOffset =>
    [(.vmoHandle, vmoHandleRaw.setWidth 64), (.namePtr, namePtr), (.nameLen, nameLen), (.offset, vmoOffset)]
  | .sysServiceSpawn _ descPtr => [(.descPtr, descPtr)]
  | .sysSpawn _ pathPtr pathLen _ argvCount =>
    [(.pathPtr, pathPtr), (.pathLen, pathLen), (.argvCount, argvCount)]
  | .sysProcMgmt _ cmd arg1 arg2 arg3 =>
    [(.cmd, cmd.setWidth 64), (.arg1, arg1), (.arg2, arg2), (.arg3, arg3)]
  | .sysWait4 _ pid statusOutPtr options =>
    [(.pid, pid), (.statusPtr, statusOutPtr), (.options, options.signExtend 64)]
  | _ => []

def execveMaxArgs : Nat := 16

/-- A pair of `argv` as `sys_spawn` reads it: address and length, little-endian. -/
def argvPair (mem : Mem) (at_ : Word) : Slice :=
  { ptr := leField 64 (mem.load at_.toNat 16) 0, len := leField 64 (mem.load at_.toNat 16) 8 }

/-- The pairs that `sys_spawn` reads; more than sixteen it refuses before it reads any. -/
def Call.argv (mem : Mem) : Call → List Slice
  | .sysSpawn _ _ _ argvPtr argvCount =>
    if argvCount.toNat ≤ execveMaxArgs then
      (List.range argvCount.toNat).map fun i => argvPair mem (argvPtr + BitVec.ofNat 64 (i * 16))
    else []
  | _ => []

/-- Two handles in one word, the second one above the first. -/
def packed (h0 h1 : HandleValue) : Word := BitVec.ofNat 64 (2 ^ 32 * h1.toNat + h0.toNat)

/-- A handler's value as a word. -/
def Call.word : (c : Call) → c.Value → Word
  | .sysVmoCreate .., v | .sysVmoCreateChild .., v | .sysChannelLookup .., v
  | .duplicateHandle .., v | .sysProcessCreate .., v | .sysThreadCreate .., v
  | .sysDup2 .., v => handleWord v
  | .sysChannelCreate .., v => packed v.1 v.2
  | .sysVmarMap .., v | .sysVmarMapSelf .., v | .sysVmoRead .., v | .sysVmoWrite .., v
  | .sysChannelRead .., v | .sysChannelWrite .., v | .sysLoadBinary .., v | .sysServiceSpawn .., v
  | .sysSpawn .., v | .sysProcMgmt .., v | .sysGetcwd .., v | .sysChdir .., v | .sysWait4 .., v
  | .sysSigaction .., v | .sysGettid, v | .sysGetpid, v | .sysRead .., v => v
  | .sysVmarUnmap .., _ | .sysChannelRegister .., _ | .close .., _ | .sysThreadStart .., _
  | .sysExec .., _ | .sysExecve .., _ | .sysRaise .., _ | .sysKill .., _ | .sysPause .., _
  | .sysPipe .., _ => 0

/-- What a routine returned. -/
def Routine.result : (r : Routine) → r.Reply → Except Status Word
  | .handler c, reply => Except.map c.word reply
  | .sysWrite .., n => .ok n
  | .schedule, _ => .ok 0
  | .sysExit .., e => nomatch e

/-- What was called while a wrapper ran, and what each routine answered. -/
abbrev Log := List ((trap : Trap) × trap.Reply)

/-- What the first routine has returned. -/
def Log.answer : Log → Option (Except Status Word)
  | [] => none
  | ⟨trap, reply⟩ :: _ => some (trap.routine.result reply)

/-- The wrapper's values are at the parameters of the same meaning, and its strings are what the handler
reads. -/
def Wrapper.Reaches (w : Wrapper) (trap : Trap) : Prop :=
  match trap.routine with
  | .handler call => (∀ pv ∈ w.values, pv ∈ call.params) ∧
      (w.argv.length ≤ execveMaxArgs → call.argv trap.mem = w.argv)
  | _ => w.values = []

/-- The wrapper has reached its handler with its own values and returned what the handler returned. -/
def Wrapper.RoundTrips (w : Wrapper) (result : Except Status Word) : Log → Prop
  | [] => False
  | ⟨trap, reply⟩ :: _ => w.Reaches trap ∧ result = trap.routine.result reply

/-- The parameters of `sys_thread_create` are not those of the wrapper. -/
def Wrapper.sameParams : Wrapper → Bool
  | threadCreate .. => false
  | _ => true

/-- A result that the sign of the register tells apart: no status `Ok`, no value from `2^63` on.
`channel_create` looks for zero in place of the sign, so that no error is one to it. -/
def Wrapper.Legible : Wrapper → Except Status Word → Prop
  | channelCreate, .ok v => v ≠ 0
  | channelCreate, .error e => e = .ok
  | _, .ok v => 0 ≤ v.toInt
  | _, .error e => e ≠ .ok

section Registers

variable {c : Caller} {table : Word}

theorem syscall_eq (h : c.tables.table = some table) (num : BitVec 32) (a0 a1 a2 a3 a4 a5 : Word) :
    syscall c num a0 a1 a2 a3 a4 a5 =
      (console c.mem num a0 a1 a2 <|> dispatchCapability c.mem table num a0 a1 a2 a3 a4 a5
        <|> dispatchLifecycle c.mem table num a0 a1 a2 a3 a4 a5).getD (.ret Status.notAllowed.toRaw) := by
  have narrow : (num.setWidth 64).setWidth 32 = num := by simp
  simp only [syscall, syncEl0Handler, syscallDispatch, h, narrow]

theorem syscall_none (h : c.tables.table = none) (num : BitVec 32) (a0 a1 a2 a3 a4 a5 : Word) :
    syscall c num a0 a1 a2 a3 a4 a5 = .ret Status.notAllowed.toRaw := by
  simp only [syscall, syncEl0Handler, syscallDispatch, h]

/-- The handles of a pair keep to their halves of the word. -/
theorem handleWord_or (h0 h1 : HandleValue) : handleWord h0 ||| handleWord h1 <<< 32 = packed h0 h1 := by
  have low : h0.toNat % 2 ^ 64 = h0.toNat := Nat.mod_eq_of_lt (by omega)
  have high : (h1.toNat % 2 ^ 64) <<< 32 % 2 ^ 64 = h1.toNat <<< 32 := by
    rw [Nat.mod_eq_of_lt (show h1.toNat < 2 ^ 64 by omega), Nat.shiftLeft_eq]
    omega
  have both : h0.toNat ||| h1.toNat <<< 32 = 2 ^ 32 * h1.toNat + h0.toNat := by
    rw [Nat.or_comm, ← Nat.shiftLeft_add_eq_or_of_lt h0.isLt, Nat.shiftLeft_eq, Nat.mul_comm]
  refine BitVec.eq_of_toNat_eq ?_
  rw [handleWord, handleWord, BitVec.toNat_or, BitVec.toNat_shiftLeft, BitVec.toNat_setWidth,
    BitVec.toNat_setWidth, low, high, both, packed, BitVec.toNat_ofNat]
  omega

/-- A handle fills the low half only, so it is not negative. -/
theorem handleWord_fits (handle : Word) :
    handleWord (handle.setWidth 32) = handle ↔ handle.toNat < 2 ^ 32 := by
  rw [← BitVec.toNat_inj]
  simp only [handleWord, BitVec.toNat_setWidth]
  have := handle.isLt
  omega

theorem signExtend_setWidth (v : BitVec 32) : (v.signExtend 64).setWidth 32 = v := by
  refine BitVec.eq_of_getElem_eq fun i hi => ?_
  rw [BitVec.getElem_setWidth, BitVec.getLsbD_signExtend]
  simp [hi, show i < 64 by omega]

end Registers

section Results

variable {α : Type}

theorem settle_map (word : α → Word) (r : Except Status α) : settle id (r.map word) = settle word r := by
  cases r <;> rfl

/-- A wrapper that drops the value reads a result that has none. -/
theorem noValue_signed (r : Except Status α) :
    noValue (signed (fun _ => ()) (settle (fun _ => 0) r)) = signed id (settle (fun _ => 0) r) := by
  cases r with
  | ok v => rfl
  | error e => cases e <;> rfl

theorem signed_settle (r : Except Status Word) :
    signed id (settle id r) = r ↔ Wrapper.yieldCpu.Legible r := by
  cases r with
  | ok v =>
    by_cases neg : v.toInt < 0
    · simp [signed, settle, Wrapper.Legible, neg]
    · simpa [signed, settle, Wrapper.Legible, neg] using Int.not_lt.mp neg
  | error e =>
    by_cases zero : e = .ok
    · subst zero
      simp [signed, settle, Wrapper.Legible, show ¬Status.ok.toRaw.toInt < 0 by decide]
    · simp [signed, settle, Wrapper.Legible, (Status.toRaw_neg e).mpr zero, zero]

/-- `channel_create` on the word of a result. -/
def nonzero (ret : Word) : Except Status Word :=
  if ret = 0 then .error (Status.fromRaw (ret.setWidth 32)) else .ok ret

theorem nonzero_settle (r : Except Status Word) :
    nonzero (settle id r) = r ↔ Wrapper.channelCreate.Legible r := by
  cases r with
  | ok v =>
    change nonzero v = .ok v ↔ v ≠ 0
    unfold nonzero
    split <;> simp_all
  | error e =>
    change nonzero e.toRaw = .error e ↔ e = .ok
    unfold nonzero
    split
    case isTrue zero =>
      have zero : e = .ok := (Status.toRaw_zero e).mp zero
      simp [zero, show Status.fromRaw (Status.ok.toRaw.setWidth 32) = .ok from rfl]
    case isFalse error => simpa using fun zero => error ((Status.toRaw_zero e).mpr zero)

end Results

/-- The routine that a wrapper's system call ends at. -/
def Wrapper.routine (stack : Stack) (table : Word) : Wrapper → Routine
  | channelCreate => .handler (.sysChannelCreate table)
  | channelRead handle buf handles =>
    .handler (.sysChannelRead table (handle.setWidth 32) buf.ptr buf.len handles.ptr handles.len)
  | channelWrite handle buf handles =>
    .handler (.sysChannelWrite table (handle.setWidth 32) buf.ptr buf.len handles.ptr handles.len)
  | channelRegister name handle =>
    .handler (.sysChannelRegister table name.ptr name.len (handle.setWidth 32))
  | channelLookup name => .handler (.sysChannelLookup table name.ptr name.len)
  | close handle => .handler (.close table (handle.setWidth 32))
  | yieldCpu => .schedule
  | vmoCreate size => .handler (.sysVmoCreate table size)
  | vmoCreateChild handle offset size =>
    .handler (.sysVmoCreateChild table (handle.setWidth 32) offset size)
  | vmoRead handle offset buf => .handler (.sysVmoRead table (handle.setWidth 32) offset buf.ptr buf.len)
  | vmoWrite handle offset buf => .handler (.sysVmoWrite table (handle.setWidth 32) offset buf.ptr buf.len)
  | handleDuplicate handle rights =>
    .handler (.duplicateHandle table (handle.setWidth 32) ((rights.setWidth 64).setWidth 32))
  | vmarMapSelf handle vaddrOffset size flags =>
    .handler (.sysVmarMapSelf table (handle.setWidth 32) vaddrOffset size ((flags.setWidth 64).setWidth 32))
  | vmarUnmap vaddrOffset size => .handler (.sysVmarUnmap vaddrOffset size)
  | processCreate name => .handler (.sysProcessCreate table name.ptr name.len)
  | loadBinary handle name offset =>
    .handler (.sysLoadBinary table (handle.setWidth 32) name.ptr name.len offset)
  | wait4 pid statusPtr options =>
    .handler (.sysWait4 table pid statusPtr ((options.signExtend 64).setWidth 32))
  | serviceSpawn descPtr => .handler (.sysServiceSpawn table descPtr)
  | spawn path argv =>
    .handler (.sysSpawn table path.ptr path.len (if BitVec.ofNat 64 argv.length > 0 then stack.pairs else 0)
      (BitVec.ofNat 64 argv.length))
  | procMgmt cmd arg1 arg2 arg3 =>
    .handler (.sysProcMgmt table ((cmd.setWidth 64).setWidth 32) arg1 arg2 arg3)
  | threadCreate handle entryPc arg0 arg1 stackSize =>
    .handler (.sysThreadCreate table ((handle.setWidth 64).setWidth 32) entryPc arg0 arg1 stackSize)
  | threadStart handle => .handler (.sysThreadStart table ((handle.setWidth 64).setWidth 32))

/-- The caller's memory when the handler runs. -/
def Wrapper.memory (c : Caller) : Wrapper → Mem
  | spawn _ argv => c.mem.store c.stack.pairs.toNat (argvPairs argv)
  | _ => c.mem

/-- What the wrapper makes of the handler's result. -/
def Wrapper.returned : Wrapper → Except Status Word → Except Status Word
  | channelCreate, r => nonzero (settle id r)
  | _, r => signed id (settle id r)

/-- The program makes one call that matters, first, and `returned` says what it makes of the answer. -/
def Returns (program : Kernel (Except Status Word)) (trap : Trap)
    (returned : Except Status Word → Except Status Word) : Prop :=
  ∃ next, program = .call trap next ∧
    ∀ reply log r, (next reply).Runs log r → r = returned (trap.routine.result reply)

theorem Returns.of_ret {program : Kernel (Except Status Word)} {trap : Trap}
    {returned : Except Status Word → Except Status Word} (value : trap.Reply → Except Status Word)
    (h : program = .call trap fun reply => .ret (value reply))
    (same : ∀ reply, value reply = returned (trap.routine.result reply)) : Returns program trap returned :=
  ⟨_, h, fun reply _ _ run => (Calls.runs_ret.mp run).2.trans (same reply)⟩

section Programs

variable {c : Caller} {table : Word} {program : Kernel (Except Status Word)} {mem : Mem} {call : Call}

theorem Returns.signed
    (h : program = .call ⟨mem, .handler call⟩ fun r => .ret (signed id (settle call.word r))) :
    Returns program ⟨mem, .handler call⟩ fun r => Syscall.signed id (settle id r) :=
  .of_ret _ h fun r => congrArg (Syscall.signed id) (settle_map call.word r).symm

theorem Returns.noValue (none_ : call.word = fun _ => 0)
    (h : program = .call ⟨mem, .handler call⟩ fun r =>
      .ret (noValue (Syscall.signed (fun _ => ()) (settle (fun _ => 0) r)))) :
    Returns program ⟨mem, .handler call⟩ fun r => Syscall.signed id (settle id r) := by
  have key (r : Except Status call.Value) : Syscall.noValue (Syscall.signed (fun _ => ())
      (settle (fun _ => 0) r)) = Syscall.signed id (settle id (r.map call.word)) :=
    (noValue_signed r).trans (by rw [← settle_map, none_])
  exact .of_ret _ h fun r => key r

/-- Each wrapper is its one call and what it makes of the answer. -/
theorem Wrapper.program_returns (h : c.tables.table = some table) (w : Wrapper) :
    Returns (w.program c) ⟨w.memory c, w.routine c.stack table⟩ w.returned := by
  cases w with
  | channelCreate =>
    have key (r : Except Status (HandleValue × HandleValue)) :
        nonzero (settle (fun hs => handleWord hs.1 ||| handleWord hs.2 <<< 32) r) =
          nonzero (settle id (r.map fun hs => packed hs.1 hs.2)) := by
      rw [← settle_map]
      simp only [handleWord_or]
    refine .of_ret (fun r => nonzero (settle (fun hs : HandleValue × HandleValue =>
      handleWord hs.1 ||| handleWord hs.2 <<< 32) r)) ?_ key
    rw [program, Syscall.channelCreate, syscall_eq h]
    rfl
  | yieldCpu =>
    exact .of_ret (fun _ => .ok 0) (by rw [program, Syscall.yieldCpu, syscall_eq h]; rfl)
      fun _ => rfl
  | serviceSpawn descPtr =>
    -- The report is a second system call; its answer is dropped.
    refine ⟨fun r => Syscall.syscall { c with mem := c.mem.store c.stack.temp.toNat (spawnReport (settle id r)) }
      syscallWrite 1 c.stack.temp 22 0 0 0 >>= fun _ => .ret (Syscall.signed id (settle id r)),
      by rw [program, Syscall.serviceSpawn, syscall_eq h]; rfl, fun reply log r run => ?_⟩
    exact run.of_bind_ret.trans (congrArg (Syscall.signed id) (settle_map id reply).symm)
  | channelRegister name handle =>
    exact .noValue rfl (by rw [program, Syscall.channelRegister, syscall_eq h]; rfl)
  | close handle =>
    exact .noValue rfl (by rw [program, Syscall.close, syscall_eq h]; rfl)
  | vmarUnmap vaddrOffset size =>
    exact .noValue rfl (by rw [program, Syscall.vmarUnmap, syscall_eq h]; rfl)
  | threadStart handle =>
    exact .noValue rfl (by rw [program, Syscall.threadStart, syscall_eq h]; rfl)
  | channelRead handle buf handles =>
    exact .signed (by rw [program, Syscall.channelRead, syscall_eq h]; rfl)
  | channelWrite handle buf handles =>
    exact .signed (by rw [program, Syscall.channelWrite, syscall_eq h]; rfl)
  | channelLookup name =>
    exact .signed (by rw [program, Syscall.channelLookup, syscall_eq h]; rfl)
  | vmoCreate size =>
    exact .signed (by rw [program, Syscall.vmoCreate, syscall_eq h]; rfl)
  | vmoCreateChild handle offset size =>
    exact .signed (by rw [program, Syscall.vmoCreateChild, syscall_eq h]; rfl)
  | vmoRead handle offset buf =>
    exact .signed (by rw [program, Syscall.vmoRead, syscall_eq h]; rfl)
  | vmoWrite handle offset buf =>
    exact .signed (by rw [program, Syscall.vmoWrite, syscall_eq h]; rfl)
  | handleDuplicate handle rights =>
    exact .signed (by rw [program, Syscall.handleDuplicate, syscall_eq h]; rfl)
  | vmarMapSelf handle vaddrOffset size flags =>
    exact .signed (by rw [program, Syscall.vmarMapSelf, syscall_eq h]; rfl)
  | processCreate name =>
    exact .signed (by rw [program, Syscall.processCreate, syscall_eq h]; rfl)
  | loadBinary handle name offset =>
    exact .signed (by rw [program, Syscall.loadBinary, syscall_eq h]; rfl)
  | wait4 pid statusPtr options =>
    exact .signed (by rw [program, Syscall.wait4, syscall_eq h]; rfl)
  | spawn path argv =>
    have h : ({ c with mem := c.mem.store c.stack.pairs.toNat (argvPairs argv) } : Caller).tables.table =
      some table := h
    exact .signed (by rw [program, Syscall.spawn]; simp only [syscall_eq h]; rfl)
  | procMgmt cmd arg1 arg2 arg3 =>
    exact .signed (by rw [program, Syscall.procMgmt, syscall_eq h]; rfl)
  | threadCreate handle entryPc arg0 arg1 stackSize =>
    exact .signed (by rw [program, Syscall.threadCreate, syscall_eq h]; rfl)

/-- Without a handle table nothing is called. -/
theorem Wrapper.program_none (h : c.tables.table = none) (w : Wrapper) (trap : Trap)
    (next : trap.Reply → Kernel (Except Status Word)) : w.program c ≠ .call trap next := by
  intro called
  cases w <;>
    simp only [program, Syscall.channelCreate, Syscall.channelRead, Syscall.channelWrite,
      Syscall.channelRegister, Syscall.channelLookup, Syscall.close, Syscall.yieldCpu, Syscall.vmoCreate,
      Syscall.vmoCreateChild, Syscall.vmoRead, Syscall.vmoWrite, Syscall.handleDuplicate,
      Syscall.vmarMapSelf, Syscall.vmarUnmap, Syscall.processCreate, Syscall.loadBinary, Syscall.wait4,
      Syscall.serviceSpawn, Syscall.spawn, Syscall.procMgmt, Syscall.threadCreate, Syscall.threadStart,
      syscall_none, h] at called <;>
    cases called

end Programs

section Argv

variable {argv : List Slice}

/-- Row `i` of a table of rows of one size. -/
theorem slice_rows {α : Type} {row : Nat → List α} {n k : Nat} (width : ∀ i, (row i).length = k) {i : Nat}
    (hi : i < n) : slice ((List.range n).flatMap row) (i * k) (i * k + k) = row i := by
  obtain ⟨rest, rfl⟩ := Nat.exists_eq_add_of_lt hi
  have before : ((List.range i).flatMap row).length = i * k := by
    simp [List.length_flatMap, width]
  rw [Nat.add_assoc, List.range_add, List.flatMap_append, slice_append before.le, before, Nat.sub_self,
    Nat.add_sub_cancel_left, List.range_succ_eq_map, List.map_cons, List.flatMap_cons]
  exact slice_front (width i)

/-- A row of `pairs`. -/
def argvRow (argv : List Slice) (i : Nat) : List UInt8 :=
  match argv[i]? with
  | some arg => leBytes arg.ptr ++ leBytes arg.len
  | none => List.replicate 16 0

theorem argvRow_length (argv : List Slice) (i : Nat) : (argvRow argv i).length = 16 := by
  unfold argvRow
  split <;> simp

theorem argvPairs_eq (argv : List Slice) : argvPairs argv = (List.range maxPairs).flatMap (argvRow argv) :=
  rfl

theorem argvPairs_length (argv : List Slice) : (argvPairs argv).length = 256 := by
  rw [argvPairs_eq, List.length_flatMap]
  simp [argvRow_length, maxPairs]

/-- The handler reads back the pair that the wrapper wrote. -/
theorem argvPair_stored (mem : Mem) (stack : Stack) {i : Nat} (hi : i < argv.length) (short : i < maxPairs) :
    argvPair (mem.store stack.pairs.toNat (argvPairs argv)) (stack.pairs + BitVec.ofNat 64 (i * 16)) =
      argv[i] := by
  have small : i < 16 := short
  have fits := stack.fits
  have address : (stack.pairs + BitVec.ofNat 64 (i * 16)).toNat = stack.pairs.toNat + i * 16 := by
    rw [BitVec.toNat_add, BitVec.toNat_ofNat]
    omega
  have row : (mem.store stack.pairs.toNat (argvPairs argv)).load (stack.pairs.toNat + i * 16) 16 =
      leBytes argv[i].ptr ++ leBytes argv[i].len := by
    have whole := Mem.load_store_same mem stack.pairs.toNat (argvPairs argv)
    have cut := slice_load (m := mem.store stack.pairs.toNat (argvPairs argv)) (a := stack.pairs.toNat)
      (Nat.le_add_right (i * 16) 16) (show i * 16 + 16 ≤ (argvPairs argv).length by
        rw [argvPairs_length]; omega)
    rw [whole, Nat.add_sub_cancel_left] at cut
    rw [← cut, argvPairs_eq, slice_rows (argvRow_length argv) short, argvRow, List.getElem?_eq_getElem hi]
  rw [argvPair, address, row, leField_leBytes (by decide), leField_skip (by decide),
    ← List.append_nil (leBytes argv[i].len), leField_leBytes (by decide)]

theorem argvPairs_read (mem : Mem) (stack : Stack) (short : argv.length ≤ maxPairs) :
    (List.range argv.length).map (fun i => argvPair (mem.store stack.pairs.toNat (argvPairs argv))
      (stack.pairs + BitVec.ofNat 64 (i * 16))) = argv := by
  refine List.ext_getElem (by rw [List.length_map, List.length_range]) fun i _ hi => ?_
  rw [List.getElem_map, List.getElem_range]
  exact argvPair_stored mem stack hi (hi.trans_le short)

theorem spawn_argv (mem : Mem) (stack : Stack) (table pathPtr pathLen : Word)
    (short : argv.length ≤ execveMaxArgs) :
    (Call.sysSpawn table pathPtr pathLen (if BitVec.ofNat 64 argv.length > 0 then stack.pairs else 0)
      (BitVec.ofNat 64 argv.length)).argv (mem.store stack.pairs.toNat (argvPairs argv)) = argv := by
  have count : (BitVec.ofNat 64 argv.length).toNat = argv.length := by
    rw [BitVec.toNat_ofNat]
    exact Nat.mod_eq_of_lt (short.trans_lt (by decide))
  have read := argvPairs_read mem stack short
  rw [Call.argv, count, if_pos short]
  by_cases some_ : BitVec.ofNat 64 argv.length > 0
  · rw [if_pos some_, read]
  · have zero : argv.length = 0 := by
      rw [gt_iff_lt, BitVec.lt_def, count] at some_
      simpa using some_
    rw [List.length_eq_zero_iff.mp zero]
    rfl

end Argv

/-- Every value arrives, where the wrapper and its handler have the same parameters: words as they are,
handles by their low half. -/
theorem Wrapper.reaches_iff (c : Caller) (table : Word) (w : Wrapper) :
    w.Reaches ⟨w.memory c, w.routine c.stack table⟩ ↔
      w.sameParams = true ∧ ∀ h ∈ w.wideHandles, h.toNat < 2 ^ 32 := by
  have handles (h : Word) : h = (h.setWidth 32).setWidth 64 ↔ h.toNat < 2 ^ 32 :=
    eq_comm.trans (handleWord_fits h)
  cases w with
  | spawn path argv =>
    simpa [Reaches, routine, memory, values, wideHandles, sameParams, Call.params, Slice.as, Wrapper.argv]
      using spawn_argv c.mem c.stack table path.ptr path.len
  | _ =>
    simp [Reaches, routine, values, wideHandles, sameParams, Call.params, Slice.as, Wrapper.argv, Call.argv,
      signExtend_setWidth, handles]

/-- What the wrapper returns is the handler's result when the register can tell it. -/
theorem Wrapper.returned_iff (w : Wrapper) (r : Except Status Word) : w.returned r = r ↔ w.Legible r := by
  cases w with
  | channelCreate => exact nonzero_settle r
  | _ => cases r <;> exact signed_settle _

/-- A system call round trips exactly when a handler was reached at all, the wrapper is not
`thread_create`, its handles fit in 32 bits and the register can tell the handler's result. -/
theorem Wrapper.roundTrips_iff (w : Wrapper) (c : Caller) (log : Log) (result : Except Status Word)
    (run : (w.program c).Runs log result) :
    w.RoundTrips result log ↔ w.sameParams = true ∧ (∀ h ∈ w.wideHandles, h.toNat < 2 ^ 32) ∧
      ∃ r, log.answer = some r ∧ w.Legible r := by
  cases h : c.tables.table with
  | none =>
    cases run' : w.program c with
    | call trap next => exact absurd run' (w.program_none h trap next)
    | ret r =>
      rw [run', Calls.runs_ret] at run
      rw [run.1]
      simp [RoundTrips, Log.answer]
  | some table =>
    obtain ⟨next, called, returns⟩ := w.program_returns h
    rw [called] at run
    obtain ⟨reply, rest, rfl, tail⟩ := run.of_call
    have ran := returns reply rest result tail
    constructor
    · rintro ⟨reaches, same⟩
      obtain ⟨params, fits⟩ := (reaches_iff c table w).mp reaches
      exact ⟨params, fits, _, rfl, (w.returned_iff _).mp (ran.symm.trans same)⟩
    · rintro ⟨params, fits, r, answer, legible⟩
      obtain rfl := Option.some.inj answer
      exact ⟨(reaches_iff c table w).mpr ⟨params, fits⟩, ran.trans ((w.returned_iff _).mpr legible)⟩

/-- A caller with its handle table at `0x1000`. -/
def Caller.plain : Caller where
  mem := fun _ => 0
  stack := { pairs := 0x7000, temp := 0x8000, fits := by decide }
  tables := { currentThread := some 0x1000, globalHandleTable := 0 }

theorem Caller.plain_table : Caller.plain.tables.table = some 0x1000 := by decide

/-- What a wrapper that ends with its handler's answer logs. -/
theorem Wrapper.runs_once {w : Wrapper} {c : Caller} {trap : Trap} {value : trap.Reply → Except Status Word}
    (h : w.program c = .call trap fun reply => .ret (value reply)) (reply : trap.Reply) :
    (w.program c).Runs [⟨trap, reply⟩] (value reply) := by
  rw [h]
  exact .call _ (.ret _)

/-- Twelve bytes read through the handle `0x80000001`, whose sign bit is set. -/
theorem Wrapper.roundTrips_vmoRead :
    (vmoRead 0x80000001 8 ⟨0x2000, 16⟩).RoundTrips (.ok 12)
      [⟨⟨Caller.plain.mem, .handler (.sysVmoRead 0x1000 0x80000001 8 0x2000 16)⟩,
        (.ok (12 : Word) : Except Status Word)⟩] := by
  have program : (vmoRead 0x80000001 8 ⟨0x2000, 16⟩).program Caller.plain =
      .call ⟨Caller.plain.mem, .handler (.sysVmoRead 0x1000 0x80000001 8 0x2000 16)⟩
        fun reply => .ret (signed id (settle id reply)) := by
    rw [Wrapper.program, Syscall.vmoRead, syscall_eq Caller.plain_table]
    rfl
  refine (roundTrips_iff _ Caller.plain _ _ (runs_once program (.ok (12 : Word)))).mpr
    ⟨rfl, by simp [wideHandles], _, rfl, ?_⟩
  change (0 : Int) ≤ (12 : Word).toInt
  decide

/-- With the handle table full, `channel_create` takes the error for a pair of handles. A thread is
created at the entry point that the caller passed for its second argument. -/
theorem Wrapper.not_roundTrips :
    ((channelCreate.program Caller.plain).Runs
        [⟨⟨Caller.plain.mem, .handler (.sysChannelCreate 0x1000)⟩,
          (.error .noMemory : Except Status (HandleValue × HandleValue))⟩] (.ok 0xFFFFFFFFFFFFFFFE) ∧
      ¬channelCreate.RoundTrips (.ok 0xFFFFFFFFFFFFFFFE)
        [⟨⟨Caller.plain.mem, .handler (.sysChannelCreate 0x1000)⟩,
          (.error .noMemory : Except Status (HandleValue × HandleValue))⟩]) ∧
    ((threadCreate 5 0x400000 1 2 0x10000).program Caller.plain).Runs
        [⟨⟨Caller.plain.mem, .handler (.sysThreadCreate 0x1000 5 0x400000 1 2 0x10000)⟩,
          (.ok 6 : Except Status HandleValue)⟩] (.ok 6) ∧
      ¬(threadCreate 5 0x400000 1 2 0x10000).RoundTrips (.ok 6)
        [⟨⟨Caller.plain.mem, .handler (.sysThreadCreate 0x1000 5 0x400000 1 2 0x10000)⟩,
          (.ok 6 : Except Status HandleValue)⟩] := by
  have creating : channelCreate.program Caller.plain =
      .call ⟨Caller.plain.mem, .handler (.sysChannelCreate 0x1000)⟩ fun reply =>
        .ret (nonzero (settle (fun hs : HandleValue × HandleValue =>
          handleWord hs.1 ||| handleWord hs.2 <<< 32) reply)) := by
    rw [Wrapper.program, Syscall.channelCreate, syscall_eq Caller.plain_table]
    rfl
  have starting : (threadCreate 5 0x400000 1 2 0x10000).program Caller.plain =
      .call ⟨Caller.plain.mem, .handler (.sysThreadCreate 0x1000 5 0x400000 1 2 0x10000)⟩
        fun reply => .ret (signed id (settle handleWord reply)) := by
    rw [Wrapper.program, Syscall.threadCreate, syscall_eq Caller.plain_table]
    rfl
  refine ⟨⟨runs_once creating (.error .noMemory), fun h => ?_⟩,
    runs_once starting (.ok (6 : HandleValue)), fun h => ?_⟩
  · cases h.2
  · have entry := h.1.1 (.entry, 0x400000) (by simp [values])
    simp [Call.params] at entry

end CapsuleOS.Syscall
