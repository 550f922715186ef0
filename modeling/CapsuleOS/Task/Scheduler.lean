import CapsuleOS.Ipc.Port
import CapsuleOS.Object.Kernel

/-!
# The scheduler

A table of sixteen threads, one ready queue per priority and the index of the running thread. The
queues hold table indices. State and queue membership of a thread are separate data: `wake_thread`
and `requeue_current` keep them together, other modules write the state alone.

A panic and the final halt are faults. A context switch has no effect here beyond `current_idx`;
what the thread does after the switch is another step.

Two fields are not in the source: `selections` records the state that each selected thread had
before it was made current, and `dropped` counts the pushes that found a queue full.
-/
namespace CapsuleOS

open Lib

def defaultTimeSlice : Nat := 5

/-- The levels in the order in which they are searched. -/
def Priority.levels : List Priority := [.realtime, .high, .normal, .low, .idle]

theorem Priority.mem_levels (p : Priority) : p ∈ Priority.levels := by cases p <;> decide

/-- The frame of a port or futex call that waits in `schedule`. -/
inductive WaitFrame where
  | port (port : Nat)
  | portWithTimeout (port : Nat) (deadline : Option Nat)
  | futex (addr : Nat)
  deriving DecidableEq

/-- A thread with the fields that scheduling and ports use; `waiting` stands for its stack. -/
structure Tcb extends Thread where
  timeSlice : Nat
  remainingTicks : Nat
  portPacketSlot : Option PortPacket
  waiting : Option WaitFrame
  deriving DecidableEq

namespace Tcb

def withState (t : Tcb) (state : ThreadState) : Tcb := { t with state }

def resetTimeSlice (t : Tcb) : Tcb := { t with remainingTicks := t.timeSlice }

def decayPriority (t : Tcb) : Tcb :=
  let priority := match t.priority with
    | .realtime => .high
    | .high => .normal
    | .normal => .low
    | .low => .low
    | .idle => .idle
  { t with priority }.resetTimeSlice

/-- What `schedule` does to the thread it is called on. -/
def expire (t : Tcb) : Tcb :=
  let t := if t.state = .running then t.withState .ready else t
  let t := { t with remainingTicks := t.remainingTicks - 1 }
  if t.remainingTicks = 0 then t.decayPriority else t

/-- What `schedule` does to the thread it selects. -/
def activate (t : Tcb) : Tcb := (t.withState .running).resetTimeSlice

@[simp] theorem withState_state (t : Tcb) (s : ThreadState) : (t.withState s).state = s := rfl

@[simp] theorem withState_priority (t : Tcb) (s : ThreadState) :
    (t.withState s).priority = t.priority := rfl

@[simp] theorem withState_id (t : Tcb) (s : ThreadState) : (t.withState s).id = t.id := rfl

@[simp] theorem withState_processId (t : Tcb) (s : ThreadState) :
    (t.withState s).processId = t.processId := rfl

@[simp] theorem activate_state (t : Tcb) : t.activate.state = .running := rfl

@[simp] theorem activate_processId (t : Tcb) : t.activate.processId = t.processId := rfl

@[simp] theorem expire_state (t : Tcb) :
    t.expire.state = if t.state = .running then .ready else t.state := by
  unfold expire decayPriority resetTimeSlice
  by_cases running : t.state = .running <;> simp [running] <;> split <;> simp

@[simp] theorem expire_processId (t : Tcb) : t.expire.processId = t.processId := by
  unfold expire decayPriority resetTimeSlice
  by_cases running : t.state = .running <;> simp [running] <;> split <;> simp

end Tcb

/-! ## Ready queues -/

/-- The source keeps the entries in an array with a count; the array never holds more. -/
structure ThreadQueue where
  items : List (Fin maxThreads)
  bound : items.length ≤ maxThreads

namespace ThreadQueue

def new : ThreadQueue := ⟨[], Nat.zero_le _⟩

/-- `false` when the queue is full. -/
def push (q : ThreadQueue) (idx : Fin maxThreads) : Bool × ThreadQueue :=
  if h : q.items.length < maxThreads then
    (true, ⟨q.items ++ [idx], by rw [List.length_append]; exact h⟩)
  else (false, q)

def popHighestPriority (q : ThreadQueue) : Option (Fin maxThreads × ThreadQueue) :=
  match q with
  | ⟨[], _⟩ => none
  | ⟨idx :: rest, h⟩ => some (idx, ⟨rest, (Nat.le_succ _).trans h⟩)

theorem push_fst (q : ThreadQueue) (idx : Fin maxThreads) :
    (q.push idx).1 = true ↔ q.items.length < maxThreads := by
  unfold push
  split <;> simp_all

theorem push_items (q : ThreadQueue) (idx : Fin maxThreads) :
    (q.push idx).2.items = if q.items.length < maxThreads then q.items ++ [idx] else q.items := by
  unfold push
  split <;> simp_all

theorem pop_eq_none {q : ThreadQueue} : q.popHighestPriority = none ↔ q.items = [] := by
  obtain ⟨items, h⟩ := q
  cases items <;> simp [popHighestPriority]

theorem pop_eq_some {q q' : ThreadQueue} {idx : Fin maxThreads}
    (h : q.popHighestPriority = some (idx, q')) : q.items = idx :: q'.items := by
  obtain ⟨items, bound⟩ := q
  cases items with
  | nil => cases h
  | cons i rest => cases h; rfl

end ThreadQueue

/-! ## The scheduler -/

structure Scheduler where
  threads : Fin maxThreads → Option Tcb
  queues : Priority → ThreadQueue
  currentIdx : Option (Fin maxThreads)
  running : Bool
  selections : List ThreadState
  dropped : Nat

abbrev SchedM := Prog Scheduler Status

namespace Scheduler

def new : Scheduler where
  threads _ := none
  queues _ := ThreadQueue.new
  currentIdx := none
  running := false
  selections := []
  dropped := 0

def setThread (s : Scheduler) (idx : Fin maxThreads) (t : Option Tcb) : Scheduler :=
  { s with threads := Function.update s.threads idx t }

/-- Write through a pointer to the thread in a slot. -/
def modifyAt (s : Scheduler) (idx : Fin maxThreads) (f : Tcb → Tcb) : Scheduler :=
  s.setThread idx ((s.threads idx).map f)

def setQueue (s : Scheduler) (p : Priority) (q : ThreadQueue) : Scheduler :=
  { s with queues := Function.update s.queues p q }

def findEmptySlot (s : Scheduler) : Option (Fin maxThreads) :=
  (List.finRange maxThreads).find? fun i => (s.threads i).isNone

def add (thread : Tcb) : SchedM Unit := fun s =>
  match s.findEmptySlot with
  | none => .fault s
  | some idx =>
    match (s.queues thread.priority).push idx with
    | (true, q) => .ok () ((s.setThread idx (some (thread.withState .ready))).setQueue thread.priority q)
    | (false, _) => .fault s

/-- Pop from the first queue that is not empty. -/
def popCandidate (s : Scheduler) : Option (Fin maxThreads × Scheduler) :=
  Priority.levels.findSome? fun p =>
    (s.queues p).popHighestPriority.map fun r => (r.1, s.setQueue p r.2)

/-- The linear scan behind the queues: the first thread that is not dead. -/
def firstLive (s : Scheduler) : Option (Fin maxThreads) :=
  (List.finRange maxThreads).find? fun i => (s.threads i).any (·.state != .dead)

/-- An empty slot counts as dead. -/
def isDead (s : Scheduler) (idx : Fin maxThreads) : Bool := (s.threads idx).all (·.state == .dead)

def popLoop : Nat → Scheduler → Option (Fin maxThreads) × Scheduler
  | 0, s => (none, s)
  | fuel + 1, s =>
    match s.popCandidate with
    | none => (s.firstLive, s)
    | some (idx, s') => if s'.isDead idx then popLoop fuel s' else (some idx, s')

def popNextFromAllQueues (s : Scheduler) : Option (Fin maxThreads) × Scheduler :=
  popLoop maxThreads s

/-- The result of the push is not looked at. -/
def requeueCurrent (s : Scheduler) (idx : Fin maxThreads) : Scheduler :=
  match s.threads idx with
  | none => s
  | some t =>
    match (s.queues t.priority).push idx with
    | (true, q) => s.setQueue t.priority q
    | (false, _) => { s with dropped := s.dropped + 1 }

/-- Make a thread current. -/
def activate (s : Scheduler) (idx : Fin maxThreads) : Scheduler :=
  { s.modifyAt idx Tcb.activate with
    currentIdx := some idx
    selections := s.selections ++ ((s.threads idx).map (·.state)).toList }

/-- The first start; it does not return. -/
def run : SchedM Unit := fun s =>
  match popNextFromAllQueues { s with running := true } with
  | (some idx, s') => .ok () (s'.activate idx)
  | (none, s') => .fault s'

/-- The first half of `schedule`: the time slice of the previous thread, and its place in a queue
if it can go on. -/
def retire (s : Scheduler) (prev : Fin maxThreads) : Scheduler :=
  let s := s.modifyAt prev Tcb.expire
  match s.threads prev with
  | some t => if t.state = .ready then s.requeueCurrent prev else s
  | none => s

def allDead (s : Scheduler) : Bool := (List.finRange maxThreads).all s.isDead

/-- The second half of `schedule`: select the next thread and switch to it. Leaving the slot of a
thread that is gone is a panic; with nobody left alive the machine stops. -/
def selectNext (prev : Fin maxThreads) : SchedM Unit := fun s =>
  match s.popNextFromAllQueues with
  | (some next, s') =>
    if prev ≠ next ∧ s.threads prev = none then .fault s' else .ok () (s'.activate next)
  | (none, s') => if s'.allDead then .fault s' else .ok () { s' with currentIdx := none }

def schedule : SchedM Unit := fun s =>
  if s.running then
    match s.currentIdx with
    | none => .ok () s
    | some prev => selectNext prev (s.retire prev)
  else .ok () s

def getCurrentThread (s : Scheduler) : Option Tcb := s.currentIdx.bind s.threads

/-- The slot of the thread with this id. -/
def slotOf (s : Scheduler) (tid : Nat) : Option (Fin maxThreads) :=
  (List.finRange maxThreads).find? fun i => (s.threads i).any (·.id == tid)

def sleeps (tid : Nat) (t : Tcb) : Bool := t.id == tid && t.state.asleep

def wakeThread (s : Scheduler) (tid : Nat) : Scheduler :=
  match (List.finRange maxThreads).find? fun i => (s.threads i).any (sleeps tid) with
  | some i => (s.modifyAt i (·.withState .ready)).requeueCurrent i
  | none => s

/-! ## What the other modules write -/

/-- Write the state of the running thread, through the pointer of `get_current_thread_ptr`. -/
def setCurrentState (s : Scheduler) (state : ThreadState) : Scheduler :=
  match s.currentIdx with
  | some i => s.modifyAt i (·.withState state)
  | none => s

/-- Write the state of a thread, through the pointer of `get_thread_ptr`. No queue is touched. -/
def setThreadState (s : Scheduler) (tid : Nat) (state : ThreadState) : Scheduler :=
  match s.slotOf tid with
  | some i => s.modifyAt i (·.withState state)
  | none => s

/-- How every blocking call waits: the running thread is marked and gives way. -/
def block : SchedM Unit := fun s => schedule (s.setCurrentState .blocked)

/-- How a thread dies, in `sys_exit`, `sys_exec`, `sys_execve` and after a fault at EL0. -/
def die : SchedM Unit := fun s => schedule (s.setCurrentState .dead)

/-- `sys_thread_start`, after the handle has been resolved. -/
def threadStart (tid : Nat) : SchedM Unit := fun s =>
  match s.slotOf tid with
  | some _ => .ok () (s.setThreadState tid .ready)
  | none => .err .notFound s

end Scheduler

end CapsuleOS
