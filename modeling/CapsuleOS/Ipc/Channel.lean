import CapsuleOS.Object.HandleTable

/-!
# Channel calls

`Channel::read`, `Channel::write` and `Channel::read_with_timeout`, each run by the thread `cur`.
A call either returns or stops in `schedule`; it is then `blocked`, and `resume` is the rest of it,
run when the scheduler switches back to the thread.

The kernel is not preempted between two such points, so the part of a call before `schedule` and
the part after it are single steps.
-/
namespace CapsuleOS

open Lib

inductive CallResult where
  | read (count : Nat) (buf : List UInt8) (handles : List Nat)
  | wrote (count : Nat)
  | blocked
  deriving DecidableEq

/-- Hand out a buffer and go to sleep. -/
def Thread.block (t : Thread) (data : List UInt8) : Thread :=
  { t with ipcBuf := data, ipcActualLen := 0, state := .blocked }

def Thread.clearMailbox (t : Thread) : Thread :=
  { t with ipcTransferHandles := t.ipcTransferHandles.map fun _ => none }

def Thread.giveUp (t : Thread) : Thread := if t.state = .blocked then t.setState .ready else t

@[simp] theorem Thread.giveUp_id (t : Thread) : t.giveUp.id = t.id := by
  unfold giveUp
  split <;> rfl

/-- Copy a message to the front of the thread's buffer. -/
def Thread.fill (t : Thread) (msg : List UInt8) : Thread :=
  { t with ipcBuf := splice t.ipcBuf 0 msg }

namespace Kernel

def currentThread (cur : Nat) : KernelM Thread := fun k =>
  match k.thread? cur with
  | some t => .ok t k
  | none => .err .threadNotFound k

/-! ## Handles in transit -/

/-- Take the waiting handle values into the caller's slice, one cell each. -/
def extractHandles : List (Option Nat) → List Nat → List Nat × List (Option Nat)
  | mailbox, [] => ([], mailbox)
  | [], handles => (handles, [])
  | m :: mailbox, h :: handles =>
    let rest := extractHandles mailbox handles
    (m.getD h :: rest.1, none :: rest.2)

/-- Enter a new handle value in the mailbox of a thread. -/
def deliver (tid hIdx hv : Nat) (k : Kernel) : Kernel :=
  k.modifyThread tid fun t =>
    { t with ipcTransferHandles := t.ipcTransferHandles.set hIdx (some hv) }

def setStash (tid i : Nat) (s : Option (KernelObject × Nat)) (k : Kernel) : Kernel :=
  k.modifyThread tid fun t => { t with ipcTransferSlots := t.ipcTransferSlots.set i s }

/-- What a thread has stashed in one of its transfer slots. -/
def stashed (k : Kernel) (tid i : Nat) : Option (KernelObject × Nat) :=
  (k.thread? tid).bind fun t => (t.ipcTransferSlots[i]?).join

/-- Move the sender's stash into the table of the reading thread. An object that does not fit is
dropped by `add`. -/
def receiveStash (tab cur sender : Nat) : List Nat → Nat → KernelM Unit
  | [], _ => pure ()
  | i :: is, hIdx => do
    let k ← Prog.get
    match k.stashed sender i with
    | none => receiveStash tab cur sender is hIdx
    | some (obj, rights) =>
      Prog.modify (setStash sender i none)
      match ← Prog.attempt (addHandle tab obj rights) with
      | .ok hv =>
        Prog.modify (deliver cur hIdx hv)
        receiveStash tab cur sender is (hIdx + 1)
      | .error _ => receiveStash tab cur sender is hIdx

/-- Take a handle out of a table for sending: a duplicate if there can be one, otherwise the handle
itself. -/
def takeHandle (tab hv : Nat) : KernelM (Option (KernelObject × Nat)) := do
  let source := match ← Prog.attempt (duplicateHandle tab hv 0) with
    | .ok dup => dup
    | .error _ => hv
  match ← Prog.attempt (removeWithRights tab source) with
  | .ok o => return some o
  | .error _ => return none

/-- Move handles from the sender's table straight into the receiver's. -/
def injectHandles (tab rtab receiver : Nat) : List Nat → Nat → KernelM Unit
  | [], _ => pure ()
  | h :: hs, hIdx => do
    match ← takeHandle tab h with
    | none => injectHandles tab rtab receiver hs hIdx
    | some (obj, rights) =>
      match ← Prog.attempt (addHandle rtab obj rights) with
      | .ok hv =>
        Prog.modify (deliver receiver hIdx hv)
        injectHandles tab rtab receiver hs (hIdx + 1)
      | .error _ => injectHandles tab rtab receiver hs hIdx

/-- Move handles from the sender's table into its own transfer slots. -/
def stashHandles (tab cur : Nat) : List Nat → Nat → KernelM Unit
  | [], _ => pure ()
  | h :: hs, hIdx => do
    match ← takeHandle tab h with
    | none => stashHandles tab cur hs hIdx
    | some o =>
      Prog.modify (setStash cur hIdx (some o))
      stashHandles tab cur hs (hIdx + 1)

/-- Empty the transfer slots, dropping what an earlier call left there. -/
def clearStash (cur : Nat) : List Nat → KernelM Unit
  | [] => pure ()
  | i :: is => do
    let k ← Prog.get
    match k.stashed cur i with
    | none => clearStash cur is
    | some (obj, _) =>
      Prog.modify (setStash cur i none)
      dropObject obj
      clearStash cur is

/-- Put the stashed handles back, under new values. -/
def restoreStash (tab cur : Nat) : List Nat → KernelM Unit
  | [] => pure ()
  | i :: is => do
    let k ← Prog.get
    match k.stashed cur i with
    | none => restoreStash tab cur is
    | some (obj, rights) =>
      Prog.modify (setStash cur i none)
      let _ ← Prog.attempt (addHandle tab obj rights)
      restoreStash tab cur is

/-! ## Rendezvous

Reads and writes start alike: they look for a thread that waits on the other side of the peer. -/

/-- Pop the first thread waiting on the endpoint `q`, if it still exists. -/
def takeWaiter (side : Side) (q : Nat) : KernelM (Option Thread) := do
  let c ← deref q
  match side.pop c with
  | none => return none
  | some (tid, c') =>
    Prog.modify fun k => k.setChan q (some c')
    let k ← Prog.get
    return k.thread? tid

/-- Serve the thread of this side that has waited longest on the peer, or wait. -/
def meet (side : Side) (cur self : Nat) (serve : Thread → KernelM CallResult)
    (wait : KernelM CallResult) : KernelM CallResult := do
  let c ← deref self
  if c.state = .closed then Prog.throw .peerClosed
  else
    let _ ← currentThread cur
    match c.peer with
    | none => Prog.throw .peerClosed
    | some q =>
      match ← takeWaiter side q with
      | some w => serve w
      | none => wait

/-- Store the length for the waiting thread and wake it. -/
def answerWaiter (w n : Nat) (k : Kernel) : Kernel :=
  (k.modifyThread w fun t => { t with ipcActualLen := n }).wakeThread w

/-- Join a waiting line and stop in `schedule`. -/
def enqueue (cur self : Nat) (c' : Channel) (call : Call) (k : Kernel) : Kernel :=
  (k.setChan self (some c')).modifyThread cur fun t => { t with call := some call }

/-! ## Read -/

/-- Finish a read: bytes and handles for the caller. -/
def finishRead (cur count : Nat) (buf : List UInt8) (handles : List Nat) : KernelM CallResult := do
  let t ← currentThread cur
  let out := extractHandles t.ipcTransferHandles handles
  Prog.modify fun k => k.modifyThread cur fun t => { t with ipcTransferHandles := out.2 }
  return .read count buf out.1

/-- The handles of a waiting sender come to the reading thread. -/
def collectHandles (cur sender : Nat) : KernelM Unit := do
  let t ← currentThread cur
  match t.handleTable with
  | some tab => receiveStash tab cur sender [0, 1] 0
  | none => pure ()

/-- Take the message of a waiting sender. -/
def receiveFrom (cur : Nat) (sender : Thread) (data : List UInt8) (handles : List Nat) :
    KernelM CallResult := do
  let copyLen := min sender.ipcBuf.length data.length
  collectHandles cur sender.id
  Prog.modify (answerWaiter sender.id copyLen)
  finishRead cur copyLen (splice data 0 (sender.ipcBuf.take copyLen)) handles

/-- The part of a read that does not depend on how it waits. -/
def readWith (cur self : Nat) (data : List UInt8) (handles : List Nat)
    (wait : KernelM CallResult) : KernelM CallResult :=
  meet .send cur self (fun sender => receiveFrom cur sender data handles) wait

/-- Register on the own endpoint and stop in `schedule`. -/
def waitReceiver (cur self : Nat) (call : Call) : KernelM CallResult := do
  let c ← deref self
  match c.pushReceiver cur with
  | none =>
    Prog.modify fun k => k.modifyThread cur (·.setState .running)
    Prog.throw .noMemory
  | some c' =>
    Prog.modify (enqueue cur self c' call)
    return .blocked

def channelRead (cur self : Nat) (data : List UInt8) (handles : List Nat) : KernelM CallResult :=
  readWith cur self data handles do
    Prog.modify fun k => k.modifyThread cur fun t => (t.block data).clearMailbox
    waitReceiver cur self (.read self handles)

/-- A timed read does not clear the mailbox before it waits. -/
def channelReadWithTimeout (cur self : Nat) (data : List UInt8) (handles : List Nat)
    (timeoutMs : Nat) : KernelM CallResult :=
  readWith cur self data handles do
    Prog.modify fun k => k.modifyThread cur (·.block data)
    let k ← Prog.get
    let deadline :=
      if timeoutMs > 0 then some (wadd k.ticks (timeoutMs * 1000 % 2 ^ 64 / 10)) else none
    waitReceiver cur self (.readWithTimeout self handles deadline)

/-! ## Write -/

/-- The handles of a message go to a waiting receiver. -/
def passHandles (cur : Nat) (receiver : Thread) (handles : List Nat) : KernelM Unit := do
  let t ← currentThread cur
  match t.handleTable, receiver.handleTable with
  | some tab, some rtab => injectHandles tab rtab receiver.id (handles.take 2) 0
  | _, _ => pure ()

/-- Hand the message to a waiting receiver. -/
def sendTo (cur : Nat) (receiver : Thread) (data : List UInt8) (handles : List Nat) :
    KernelM CallResult := do
  let copyLen := min data.length receiver.ipcBuf.length
  Prog.modify fun k => k.modifyThread receiver.id (·.fill (data.take copyLen))
  passHandles cur receiver handles
  Prog.modify (answerWaiter receiver.id copyLen)
  return .wrote copyLen

/-- Stash the handles of a message that has to wait. Returns the sender's table. -/
def stashMessage (cur : Nat) (handles : List Nat) : KernelM (Option Nat) := do
  clearStash cur [0, 1]
  let t ← currentThread cur
  match t.handleTable with
  | some tab => stashHandles tab cur (handles.take 2) 0
  | none => pure ()
  return t.handleTable

def restoreMessage (cur : Nat) (tab : Option Nat) : KernelM Unit :=
  match tab with
  | some tab => restoreStash tab cur [0, 1]
  | none => pure ()

/-- There is no room in the waiting line: put the handles back and fail. -/
def abandonWrite (cur : Nat) (tab : Option Nat) : KernelM CallResult := do
  restoreMessage cur tab
  Prog.modify fun k => k.modifyThread cur (·.setState .running)
  Prog.throw .noMemory

/-- Stash the handles, register on the own endpoint and stop in `schedule`. -/
def waitSender (cur self : Nat) (data : List UInt8) (handles : List Nat) : KernelM CallResult := do
  Prog.modify fun k => k.modifyThread cur (·.block data)
  let tab ← stashMessage cur handles
  let c ← deref self
  match c.pushSender cur with
  | none => abandonWrite cur tab
  | some c' =>
    Prog.modify (enqueue cur self c' (.write self))
    return .blocked

def channelWrite (cur self : Nat) (data : List UInt8) (handles : List Nat) : KernelM CallResult :=
  meet .recv cur self (fun receiver => sendTo cur receiver data handles)
    (waitSender cur self data handles)

/-! ## Resumption -/

/-- The scheduler has switched back to a thread that waits in a call. -/
def wakeUp (cur : Nat) (k : Kernel) : Kernel :=
  k.modifyThread cur fun t => { t with state := .running, call := none }

/-- The rest of a timed read. -/
def finishTimedRead (cur self : Nat) (deadline : Option Nat) (count : Nat) (buf : List UInt8)
    (handles : List Nat) : KernelM CallResult := do
  let k ← Prog.get
  if deadline.any (k.ticks ≥ ·) then
    let c ← deref self
    Prog.modify fun k => (k.setChan self (some (c.removeReceiver cur))).modifyThread cur (·.giveUp)
    Prog.throw .timedOut
  else finishRead cur count buf handles

/-- The rest of a call, from the return of `schedule` on. -/
def resume (cur : Nat) : KernelM CallResult := do
  let t ← currentThread cur
  Prog.modify (wakeUp cur)
  match t.call with
  | none => Prog.fault
  | some (.write _) => return .wrote t.ipcActualLen
  | some (.read _ handles) => finishRead cur t.ipcActualLen t.ipcBuf handles
  | some (.readWithTimeout self handles deadline) =>
    finishTimedRead cur self deadline t.ipcActualLen t.ipcBuf handles

/-! ## What the last steps of a call do -/

variable {k : Kernel} {cur : Nat} {t : Thread}

theorem finishRead_ok (h : k.thread? cur = some t) (n : Nat) (buf : List UInt8) (hs : List Nat) :
    finishRead cur n buf hs k =
      .ok (.read n buf (extractHandles t.ipcTransferHandles hs).1)
        (k.modifyThread cur fun u =>
          { u with ipcTransferHandles := (extractHandles t.ipcTransferHandles hs).2 }) := by
  simp [finishRead, Prog.bind_apply, currentThread, h]

theorem wakeUp_thread? (h : k.thread? cur = some t) :
    (wakeUp cur k).thread? cur = some { t with state := .running, call := none } := by
  rw [wakeUp, thread?_modifyThread _ (by intro; rfl), if_pos rfl, h]
  rfl

theorem answerWaiter_thread? (w n : Nat) (k : Kernel) (tid : Nat) :
    (answerWaiter w n k).thread? tid =
      if tid = w then (k.thread? tid).map fun t => { t with ipcActualLen := n }.wake
      else k.thread? tid := by
  rw [answerWaiter, thread?_wakeThread, thread?_modifyThread _ (by intro; rfl)]
  split_ifs
  · rw [Option.map_map]
    rfl
  · rfl

@[simp] theorem answerWaiter_chans (w n : Nat) (k : Kernel) :
    (answerWaiter w n k).chans = k.chans := by simp [answerWaiter]

theorem answerWaiter_calls (w n : Nat) (k : Kernel) (tid : Nat) :
    ((answerWaiter w n k).thread? tid).map Thread.call = (k.thread? tid).map Thread.call := by
  rw [answerWaiter_thread?]
  split_ifs
  · simp [Option.map_map, Function.comp_def]
  · rfl

theorem resume_write (h : k.thread? cur = some t) {r : Nat} (call : t.call = some (.write r)) :
    resume cur k = .ok (.wrote t.ipcActualLen) (wakeUp cur k) := by
  simp [resume, Prog.bind_apply, currentThread, h, call]

theorem resume_read (h : k.thread? cur = some t) {r : Nat} {hs : List Nat}
    (call : t.call = some (.read r hs)) :
    resume cur k = .ok
      (.read t.ipcActualLen t.ipcBuf (extractHandles t.ipcTransferHandles hs).1)
      ((wakeUp cur k).modifyThread cur fun u =>
        { u with ipcTransferHandles := (extractHandles t.ipcTransferHandles hs).2 }) := by
  rw [← finishRead_ok (wakeUp_thread? h)]
  simp [resume, Prog.bind_apply, currentThread, h, call]

theorem resume_readWithTimeout (h : k.thread? cur = some t) {r : Nat} {hs : List Nat}
    {dl : Option Nat} (call : t.call = some (.readWithTimeout r hs dl)) :
    resume cur k = finishTimedRead cur r dl t.ipcActualLen t.ipcBuf hs (wakeUp cur k) := by
  simp [resume, Prog.bind_apply, currentThread, h, call]

/-! ## Which way a call goes -/

section Paths

variable {side : Side} {self q : Nat} {c d : Channel} {serve : Thread → KernelM CallResult}
  {wait : KernelM CallResult}

theorem meet_serve {d' : Channel} {r : Nat} {w : Thread} (hc : k.chans self = some c)
    (open_ : c.state ≠ .closed) (ht : k.thread? cur = some t) (peer : c.peer = some q)
    (hd : k.chans q = some d) (pop : side.pop d = some (r, d')) (hr : k.thread? r = some w) :
    meet side cur self serve wait k = serve w (k.setChan q (some d')) := by
  simp [meet, Prog.bind_apply, deref, hc, open_, currentThread, ht, peer, takeWaiter, hd, pop, hr]

theorem meet_wait (hc : k.chans self = some c) (open_ : c.state ≠ .closed)
    (ht : k.thread? cur = some t) (peer : c.peer = some q) (hd : k.chans q = some d)
    (pop : side.pop d = none) : meet side cur self serve wait k = wait k := by
  simp [meet, Prog.bind_apply, deref, hc, open_, currentThread, ht, peer, takeWaiter, hd, pop]

end Paths

/-! ## A small machine

Two threads with one handle table each and a linked pair of endpoints at 100 and 200; the first
table holds one handle, with value 5. The concrete instances of the channel theorems start here. -/

def demoThread (id : Nat) : Thread where
  id
  state := .running
  priority := .normal
  processId := id
  ipcBuf := []
  ipcActualLen := 0
  ipcTransferHandles := [none, none, none, none]
  handleTable := some id
  ipcTransferSlots := [none, none]
  call := none

/-- The small machine, with `object` behind the handle 5. -/
def demo (object : KernelObject) : Kernel where
  mm := Mm.boot 0x40200000 0x60000000
  handleValueCounter := 1000
  channelIdCounter := 3
  tables tab :=
    if tab = 1 then ⟨some ⟨5, 3, object⟩ :: List.replicate 11 none, rfl⟩ else Slots.empty
  chans p :=
    if p = 100 then some { Channel.fresh 1 with peer := some 200 }
    else if p = 200 then some { Channel.fresh 2 with peer := some 100 }
    else none
  threads := ⟨some (demoThread 1) :: some (demoThread 2) :: List.replicate 14 none, rfl⟩
  queues _ := []
  ticks := 0
  registry := Slots.empty

theorem demo_threads {object : KernelObject} {tid : Nat} {t : Thread}
    (ht : (demo object).thread? tid = some t) : t = demoThread 1 ∨ t = demoThread 2 := by
  have mem := Cells.mem_occupants.mp (thread?_mem _ ht)
  simpa [demo, List.replicate] using mem

end Kernel

end CapsuleOS
