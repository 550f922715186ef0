import CapsuleOS.Memory.Vmar
import CapsuleOS.Memory.Vmo

/-!
# Kernel objects, threads and the kernel state

Pointers to boxed channels and to handle tables are numbers; a pointer is live while the heap map
has an entry for it, and following a dead one is a fault. A thread's `ipc_buf_ptr` and
`ipc_buf_len` are modelled by the bytes they delimit, which is all that is read or written through
them.

A thread that waits inside a kernel call has a frame on its stack. `call` records that frame: which
call it is and the slice it will return handles in.
-/
namespace CapsuleOS

open Lib

inductive ChannelState where
  | opened
  | halfClosed
  | closed
  deriving DecidableEq, Repr

def maxWaiters : Nat := 8

structure Channel where
  id : Nat
  state : ChannelState
  peer : Option Nat
  sendWaiters : Slots Nat maxWaiters
  recvWaiters : Slots Nat maxWaiters
  deriving DecidableEq

inductive KernelObject where
  | vmo (v : Vmo)
  | vmar (r : Vmar)
  | channel (ptr : Nat)
  | port (id : Nat)
  | process (pid : Nat)
  | thread (tid : Nat)
  deriving DecidableEq

def maxHandles : Nat := 12

structure HandleSlot where
  value : Nat
  rights : Nat
  object : KernelObject
  deriving DecidableEq

/-- The handle table of a process. -/
abbrev HandleTable := Slots HandleSlot maxHandles

inductive ThreadState where
  | initial
  | ready
  | running
  | blocked
  | sleeping
  | dead
  deriving DecidableEq, Repr

def ThreadState.asleep (s : ThreadState) : Bool := s == .blocked || s == .sleeping

inductive Priority where
  | realtime
  | high
  | normal
  | low
  | idle
  deriving DecidableEq, Repr

def Priority.toIndex : Priority → Nat
  | .realtime => 0
  | .high => 1
  | .normal => 2
  | .low => 3
  | .idle => 4

/-- The frame of a channel call that waits in `schedule`. -/
inductive Call where
  | read (chan : Nat) (handles : List Nat)
  | write (chan : Nat)
  | readWithTimeout (chan : Nat) (handles : List Nat) (deadline : Option Nat)
  deriving DecidableEq

structure Thread where
  id : Nat
  state : ThreadState
  priority : Priority
  processId : Nat
  ipcBuf : List UInt8
  ipcActualLen : Nat
  ipcTransferHandles : List (Option Nat)
  handleTable : Option Nat
  ipcTransferSlots : List (Option (KernelObject × Nat))
  call : Option Call
  deriving DecidableEq

def Thread.setState (t : Thread) (state : ThreadState) : Thread := { t with state }

@[simp] theorem Thread.setState_id (t : Thread) (s : ThreadState) : (t.setState s).id = t.id := rfl

def maxThreads : Nat := 16
def maxServices : Nat := 8

structure ServiceEntry where
  name : List UInt8
  channelPtr : Nat
  deriving DecidableEq

structure Kernel where
  mm : Mm
  handleValueCounter : Nat
  channelIdCounter : Nat
  tables : Nat → HandleTable
  chans : Nat → Option Channel
  threads : Slots Thread maxThreads
  queues : Nat → List Nat
  ticks : Nat
  registry : Slots ServiceEntry maxServices

/-- A routine of the kernel. -/
abbrev KernelM := Prog Kernel Status

namespace Kernel

/-! ## Access -/

/-- `get_thread_ptr`. -/
def thread? (k : Kernel) (tid : Nat) : Option Thread := k.threads.find? (·.id == tid)

def modifyThread (k : Kernel) (tid : Nat) (f : Thread → Thread) : Kernel :=
  { k with threads := k.threads.modify (·.id == tid) f }

def setTable (k : Kernel) (tab : Nat) (t : HandleTable) : Kernel :=
  { k with tables := Function.update k.tables tab t }

def setChan (k : Kernel) (p : Nat) (c : Option Channel) : Kernel :=
  { k with chans := Function.update k.chans p c }

/-- Follow a channel pointer. -/
def deref (p : Nat) : KernelM Channel := fun k =>
  match k.chans p with
  | some c => .ok c k
  | none => .fault k

/-- Run a routine of the memory manager. -/
def onMm {α : Type} (m : MmM α) : KernelM α := Prog.zoom Kernel.mm (fun mm k => { k with mm }) m

/-! ## Waking -/

/-- Append to a ready queue; a full queue drops the entry. -/
def pushQueue (k : Kernel) (prio idx : Nat) : Kernel :=
  if (k.queues prio).length ≥ maxThreads then k
  else { k with queues := Function.update k.queues prio (k.queues prio ++ [idx]) }

/-- `requeue_current`. -/
def requeueCurrent (k : Kernel) (idx : Nat) : Kernel :=
  match k.threads.cells[idx]? with
  | some (some t) => k.pushQueue t.priority.toIndex idx
  | _ => k

def wakes (tid : Nat) (t : Thread) : Bool := t.id == tid && t.state.asleep

def wakeThread (k : Kernel) (tid : Nat) : Kernel :=
  match k.threads.cells.findIdx? (fun c => c.any (wakes tid)) with
  | none => k
  | some i =>
    { k with threads := k.threads.modify (wakes tid) (·.setState .ready) }.requeueCurrent i

def wakeAll (k : Kernel) (tids : List Nat) : Kernel := tids.foldl wakeThread k

/-! ## Lookup after an update -/

variable (k : Kernel)

theorem thread?_modifyThread {f : Thread → Thread} (hf : ∀ t, (f t).id = t.id) (tid tid' : Nat) :
    (k.modifyThread tid f).thread? tid' =
      if tid' = tid then (k.thread? tid').map f else k.thread? tid' := by
  unfold modifyThread thread?
  split_ifs with eq
  · subst eq
    rw [Slots.find?_modify_sub (fun _ h => h) (fun t h => by simpa [hf t] using h)]
    cases h : k.threads.find? (·.id == tid') with
    | none => rfl
    | some t =>
      have found : (t.id == tid') = true := by
        rw [Slots.find?_eq] at h
        exact List.find?_some (p := fun t : Thread => t.id == tid') h
      simp only [Option.map_some, found, if_true]
  · refine Slots.find?_modify_of_disjoint (fun t h => ?_) (fun t h => ?_) _
    · have : t.id = tid := by simpa using h
      simp [this, Ne.symm eq]
    · have : t.id = tid := by simpa using h
      simp [hf t, this, Ne.symm eq]

theorem modifyThread_same {f : Thread → Thread} {tid : Nat} {t : Thread}
    (hf : ∀ t, (f t).id = t.id) (ht : k.thread? tid = some t) :
    (k.modifyThread tid f).thread? tid = some (f t) := by
  rw [thread?_modifyThread _ hf, if_pos rfl, ht]
  rfl

theorem thread?_mem {tid : Nat} {t : Thread} (h : k.thread? tid = some t) :
    t ∈ k.threads.occupants := by
  rw [thread?, Slots.find?_eq] at h
  exact List.mem_of_find?_eq_some h

theorem thread?_id {tid : Nat} {t : Thread} (h : k.thread? tid = some t) : t.id = tid := by
  rw [thread?, Slots.find?_eq] at h
  simpa using List.find?_some (p := fun t : Thread => t.id == tid) h

end Kernel

/-- The state of a thread after `wake_thread` has been called on it. -/
def Thread.wake (t : Thread) : Thread :=
  if t.state.asleep then t.setState .ready else t

@[simp] theorem Thread.wake_id (t : Thread) : t.wake.id = t.id := by unfold wake; split <;> rfl

@[simp] theorem Thread.wake_call (t : Thread) : t.wake.call = t.call := by
  unfold wake
  split <;> rfl

theorem Thread.wake_wake (t : Thread) : t.wake.wake = t.wake := by
  unfold wake
  split_ifs with h h'
  · simp [Thread.setState, ThreadState.asleep] at h'
  · rfl
  · rfl

namespace Kernel

variable (k : Kernel)

@[simp] theorem requeueCurrent_threads (idx : Nat) :
    (k.requeueCurrent idx).threads = k.threads := by
  unfold requeueCurrent pushQueue
  split
  · split <;> rfl
  · rfl

/-- Waking changes threads and ready queues, nothing else. -/
theorem wakeThread_eq (tid : Nat) :
    ∃ threads queues, k.wakeThread tid = { k with threads, queues } := by
  unfold wakeThread requeueCurrent pushQueue
  split
  · exact ⟨_, _, rfl⟩
  · split
    · split
      · exact ⟨_, _, rfl⟩
      · exact ⟨_, _, rfl⟩
    · exact ⟨_, _, rfl⟩

theorem wakeAll_eq (tids : List Nat) :
    ∃ threads queues, k.wakeAll tids = { k with threads, queues } := by
  induction tids generalizing k with
  | nil => exact ⟨_, _, rfl⟩
  | cons t tids ih =>
    obtain ⟨ts, qs, h⟩ := k.wakeThread_eq t
    obtain ⟨ts', qs', h'⟩ := ih (k.wakeThread t)
    exact ⟨ts', qs', by rw [wakeAll, List.foldl_cons, ← wakeAll, h', h]⟩

@[simp] theorem wakeThread_chans (tid : Nat) : (k.wakeThread tid).chans = k.chans := by
  obtain ⟨_, _, h⟩ := k.wakeThread_eq tid
  rw [h]

@[simp] theorem wakeThread_tables (tid : Nat) : (k.wakeThread tid).tables = k.tables := by
  obtain ⟨_, _, h⟩ := k.wakeThread_eq tid
  rw [h]

@[simp] theorem wakeAll_chans (tids : List Nat) : (k.wakeAll tids).chans = k.chans := by
  obtain ⟨_, _, h⟩ := k.wakeAll_eq tids
  rw [h]

@[simp] theorem wakeAll_tables (tids : List Nat) : (k.wakeAll tids).tables = k.tables := by
  obtain ⟨_, _, h⟩ := k.wakeAll_eq tids
  rw [h]

@[simp] theorem wakeAll_ticks (tids : List Nat) : (k.wakeAll tids).ticks = k.ticks := by
  obtain ⟨_, _, h⟩ := k.wakeAll_eq tids
  rw [h]

@[simp] theorem modifyThread_chans (tid : Nat) (f : Thread → Thread) :
    (k.modifyThread tid f).chans = k.chans := rfl

@[simp] theorem modifyThread_tables (tid : Nat) (f : Thread → Thread) :
    (k.modifyThread tid f).tables = k.tables := rfl

@[simp] theorem setChan_tables (p : Nat) (c : Option Channel) :
    (k.setChan p c).tables = k.tables := rfl

@[simp] theorem setChan_chans_same (p : Nat) (c : Option Channel) : (k.setChan p c).chans p = c := by
  simp [setChan]

theorem setChan_chans_ne {p q : Nat} (h : q ≠ p) (c : Option Channel) :
    (k.setChan p c).chans q = k.chans q := by simp [setChan, h]

theorem setChan_chans (p q : Nat) (c : Option Channel) :
    (k.setChan p c).chans q = if q = p then c else k.chans q := by
  simp [setChan, Function.update_apply]

@[simp] theorem setChan_thread? (p : Nat) (c : Option Channel) (tid : Nat) :
    (k.setChan p c).thread? tid = k.thread? tid := rfl

@[simp] theorem setTable_thread? (tab : Nat) (t : HandleTable) (tid : Nat) :
    (k.setTable tab t).thread? tid = k.thread? tid := rfl

@[simp] theorem setTable_chans (tab : Nat) (t : HandleTable) : (k.setTable tab t).chans = k.chans := rfl

theorem thread?_wakeThread (tid tid' : Nat) :
    (k.wakeThread tid).thread? tid' =
      if tid' = tid then (k.thread? tid').map Thread.wake else k.thread? tid' := by
  have sub : ∀ t, wakes tid t → (t.id == tid) := fun t h => by simp_all [wakes]
  unfold wakeThread
  split
  case _ h =>
    split_ifs with eq
    · subst eq
      cases ht : k.thread? tid' with
      | none => rfl
      | some t =>
        -- nobody with this id is asleep
        have mem : some t ∈ k.threads.cells := by
          rw [thread?, Slots.find?_eq] at ht
          exact Cells.mem_occupants.mp (List.mem_of_find?_eq_some ht)
        have awake := List.findIdx?_eq_none_iff.mp h _ mem
        have id_eq := k.thread?_id ht
        have : t.state.asleep = false := by simpa [wakes, id_eq] using awake
        simp [Thread.wake, this]
    · rfl
  case _ i _ =>
    simp only [thread?, requeueCurrent_threads]
    split_ifs with eq
    · subst eq
      rw [Slots.find?_modify_sub sub fun t h => by simpa using sub t h]
      cases ht : k.threads.find? (·.id == tid') with
      | none => rfl
      | some t =>
        have id_eq : t.id = tid' := k.thread?_id ht
        simp [Thread.wake, wakes, id_eq]
    · refine Slots.find?_modify_of_disjoint (fun t h => ?_) (fun t h => ?_) _
      · have : t.id = tid := by simpa using sub t h
        simp [this, Ne.symm eq]
      · have : t.id = tid := by simpa using sub t h
        simp [this, Ne.symm eq]

theorem thread?_wakeAll (tids : List Nat) (tid : Nat) :
    (k.wakeAll tids).thread? tid =
      if tid ∈ tids then (k.thread? tid).map Thread.wake else k.thread? tid := by
  induction tids generalizing k with
  | nil => rfl
  | cons t tids ih =>
    rw [wakeAll, List.foldl_cons, ← wakeAll, ih, thread?_wakeThread]
    by_cases eq : tid = t
    · subst eq
      by_cases mem : tid ∈ tids
      · simp [mem, Option.map_map, Function.comp_def, Thread.wake_wake]
      · simp [mem]
    · simp [eq]

/-- Waking changes nobody's call. -/
theorem wakeAll_calls (tids : List Nat) (tid : Nat) :
    ((k.wakeAll tids).thread? tid).map Thread.call = (k.thread? tid).map Thread.call := by
  rw [thread?_wakeAll]
  split_ifs
  · simp [Option.map_map, Function.comp_def]
  · rfl

end Kernel

end CapsuleOS
