import CapsuleOS.Lib.Runs
import CapsuleOS.Task.PortCalls
import CapsuleOS.Task.TaskRuns

/-!
# Delivery of packets

Threads queue packets on one port and wait for them, in any order; a thread that has registered
resumes once it has been made ready. A log records the packets that were accepted and the ones that a
wait returned, and where the others are: handed to a thread that has yet to return them, or in the ring.

A timed wait moves the head of the ring behind its tail. With one packet in the ring that leaves a ring
that looks full and holds nothing; with more it hides the others.
-/
namespace CapsuleOS

open Lib

structure PortLog where
  accepted : List PortPacket
  returned : List PortPacket
  /-- Packets handed to a waiting thread, which will return them when it resumes. -/
  given : List (Fin maxThreads × PortPacket)
  /-- Packets in the ring. -/
  queued : List PortPacket

def PortLog.new : PortLog := ⟨[], [], [], []⟩

/-- What a step did, as far as the log is concerned. -/
inductive PortEvent where
  | took (pkt : PortPacket)
  | finished (cur : Fin maxThreads) (pkt : PortPacket)
  | gave (dst : Fin maxThreads) (pkt : PortPacket)
  | kept (pkt : PortPacket)
  | nothing

def PortLog.record (log : PortLog) : PortEvent → PortLog
  | .took pkt => { log with returned := log.returned ++ [pkt], queued := log.queued.tail }
  | .finished cur pkt =>
    { log with returned := log.returned ++ [pkt], given := log.given.filter (·.1 != cur) }
  | .gave dst pkt => { log with accepted := log.accepted ++ [pkt], given := log.given ++ [(dst, pkt)] }
  | .kept pkt => { log with accepted := log.accepted ++ [pkt], queued := log.queued ++ [pkt] }
  | .nothing => log

structure PortTrace where
  tasks : Tasks
  log : PortLog

inductive PortOp where
  | wait (cur : Fin maxThreads)
  | waitWithTimeout (cur : Fin maxThreads) (timeoutMs : Nat)
  | queue (packet : PortPacket)
  | resume (cur : Fin maxThreads)
  | tick

namespace Tasks

/-- The thread in slot `cur` runs. -/
def setCurrent (cur : Fin maxThreads) : TaskM Unit :=
  modifySched fun s => { s with currentIdx := some cur }

end Tasks

namespace PortOp

open Tasks

def exec (p : Nat) : PortOp → TaskM PortEvent
  | .wait cur => do
    setCurrent cur
    match ← portWaitTry p with
    | some pkt => return .took pkt
    | none => return .nothing
  | .waitWithTimeout cur ms => do
    setCurrent cur
    match ← portWaitWithTimeoutTry p ms with
    | some pkt => return .took pkt
    | none => return .nothing
  | .queue pkt => do
    let s ← Prog.get
    portQueue p pkt
    match (s.ports p).waiter.bind s.sched.slotOf with
    | some dst => return .gave dst pkt
    | none => return .kept pkt
  | .resume cur => do
    setCurrent cur
    let pkt ← portRest
    return .finished cur pkt
  | .tick => do
    Prog.modify fun s => { s with ticks := s.ticks + 1 }
    return .nothing

/-- A thread calls when it is in no call, and resumes when it has been made ready. -/
def Enabled (p : Nat) (s : Tasks) : PortOp → Prop
  | .wait cur => ∃ t, s.sched.threads cur = some t ∧ t.waiting = none
  | .waitWithTimeout cur _ => ∃ t, s.sched.threads cur = some t ∧ t.waiting = none
  | .resume cur => ∃ t, s.sched.threads cur = some t ∧ t.WaitsOn p ∧ t.state = .ready
  | .queue _ => True
  | .tick => True

/-- Nobody has a packet to return that is older than the one the step returns, a timed wait finds at
most one packet in the ring, and a packet that was handed out is fetched in time. -/
def Timely (p : Nat) (tr : PortTrace) : PortOp → Prop
  | .wait _ => tr.log.queued ≠ [] → tr.log.given = []
  | .waitWithTimeout _ _ => (tr.log.queued ≠ [] → tr.log.given = []) ∧ tr.log.queued.length ≤ 1
  | .resume cur => (tr.log.given.map (·.1)).head? = some cur ∧
      ∀ t deadline, tr.tasks.sched.threads cur = some t →
        t.waiting = some (.portWithTimeout p (some deadline)) → tr.tasks.ticks < deadline
  | .queue _ => True
  | .tick => True

/-- The step with the log: an error returns no packet and accepts none. -/
def traced (p : Nat) (op : PortOp) : Prog PortTrace Status Unit := fun tr =>
  match op.exec p tr.tasks with
  | .ok event s => .ok () ⟨s, tr.log.record event⟩
  | .err e s => .err e ⟨s, tr.log⟩
  | .fault s => .fault ⟨s, tr.log⟩

def system (p : Nat) : Stepper PortTrace Status PortOp where
  exec := traced p
  Enabled tr := Enabled p tr.tasks

end PortOp

/-! ## The ring -/

namespace Port

/-- The ring holds these packets, or it has been jammed by a timed wait and holds none. -/
def Contains (port : Port) (xs : List PortPacket) : Prop :=
  Ring.Holds port.queue port.head port.tail xs ∨
    (xs = [] ∧ (∀ i, port.queue i = none) ∧ port.head = advance port.tail)

variable {port : Port} {xs : List PortPacket} {x : PortPacket}

theorem Contains.takeFront_nil (h : port.Contains []) (next : Fin portQueueMax) :
    port.takeFront next = none := by
  unfold takeFront
  rcases h with holds | ⟨_, empty, _⟩
  · rw [if_pos (holds.head_eq_tail.mpr rfl)]
  · simp [empty]

theorem Contains.takeFront_cons (h : port.Contains (x :: xs)) (next : Fin portQueueMax) :
    port.takeFront next =
      some (x, { port with queue := Function.update port.queue port.head none, head := next }) := by
  rcases h with holds | ⟨nil, _⟩
  · have ne : port.head ≠ port.tail := fun eq => by
      cases holds.head_eq_tail.mp eq
    simp [takeFront, ne, holds.first]
  · cases nil

/-- `Port::wait` moves the head to the next packet. -/
theorem Contains.wait (h : port.Contains (x :: xs)) :
    Contains { port with
      queue := Function.update port.queue port.head none, head := advance port.head } xs := by
  rcases h with holds | ⟨nil, _⟩
  · exact Or.inl holds.pop
  · cases nil

/-- A timed wait that takes the only packet jams the ring. -/
theorem Contains.waitWithTimeout (h : port.Contains [x]) :
    Contains { port with
      queue := Function.update port.queue port.head none, head := advance port.tail } [] := by
  rcases h with holds | ⟨nil, _⟩
  · refine Or.inr ⟨rfl, fun i => ?_, rfl⟩
    have rest := holds.pop
    by_cases here : i = port.head
    · rw [here]
      exact Function.update_self _ _ _
    · obtain ⟨k, lt, rfl⟩ := Ring.exists_ahead (Ring.next port.head) i
      simpa using rest.entry k lt
  · cases nil

theorem Contains.append (h : port.Contains xs) {port' : Port} (room : port.append x = some port') :
    port'.Contains (xs ++ [x]) ∧ port'.waiter = port.waiter := by
  unfold Port.append at room
  split_ifs at room with full
  cases room
  rcases h with holds | ⟨_, _, jam⟩
  · exact ⟨Or.inl (holds.push full), rfl⟩
  · exact absurd jam.symm full

theorem Contains.congr {port' : Port} (h : port.Contains xs) (queue : port'.queue = port.queue)
    (head : port'.head = port.head) (tail : port'.tail = port.tail) : port'.Contains xs := by
  unfold Contains
  rw [queue, head, tail]
  exact h

end Port

/-! ## The invariant -/

/-- Ports and threads agree with the log. -/
structure PortLog.Agrees (p : Nat) (s : Tasks) (log : PortLog) : Prop where
  ids : s.sched.DistinctIds
  ring : (s.ports p).Contains log.queued
  account : log.accepted = log.returned ++ log.given.map (·.2) ++ log.queued
  once : (log.given.map (·.1)).Nodup
  given : ∀ i pkt, (i, pkt) ∈ log.given → ∃ t, s.sched.threads i = some t ∧ t.WaitsOn p ∧
    t.state = .ready ∧ t.portPacketSlot = some pkt
  woken : ∀ i t, s.sched.threads i = some t → t.WaitsOn p → t.state = .ready →
    ∃ pkt, (i, pkt) ∈ log.given
  waiter : ∀ tid, (s.ports p).waiter = some tid → log.queued = [] ∧
    ∃ i t, s.sched.threads i = some t ∧ t.id = tid ∧ t.WaitsOn p ∧ t.state = .blocked

/-- The state in which the thread in slot `cur` runs. -/
def Tasks.runs (s : Tasks) (cur : Fin maxThreads) : Tasks :=
  { s with sched := { s.sched with currentIdx := some cur } }

namespace PortLog.Agrees

open Tasks

variable {p : Nat} {s s' : Tasks} {log : PortLog} {cur : Fin maxThreads} {t : Tcb}

/-! ### What the parts of the calls do -/

theorem currentThread_runs (thread : s.sched.threads cur = some t) :
    currentThread (s.runs cur) = .ok t (s.runs cur) := by
  simp [currentThread, Scheduler.getCurrentThread, thread, runs]

/-- A wait that finds no packet registers the thread. -/
theorem try_blocks (h : log.Agrees p s) (nothing : log.queued = [])
    (thread : s.sched.threads cur = some t) (next : Fin portQueueMax) (frame : WaitFrame) :
    ∃ s', portTry p next frame (s.runs cur) = .ok none s' ∧
      s'.sched.threads = Function.update s.sched.threads cur (some (t.registered frame)) ∧
      s'.ports = Function.update s.ports p { s.ports p with waiter := some t.id } := by
  have ring := h.ring
  rw [nothing] at ring
  have front : ((s.runs cur).ports p).takeFront next = none := ring.takeFront_nil next
  refine ⟨Tasks.setPort { s with sched := (s.runs cur).sched.modifyAt cur (Tcb.registered frame) } p
    { s.ports p with waiter := some t.id }, ?_, ?_, rfl⟩
  · simp only [portTry, Prog.bind_apply, Prog.get_apply, front, portRegister,
      currentThread_runs thread, modifyCurrent, modifySched, Prog.modify_apply]
    rfl
  · simp [setPort, Scheduler.modifyAt, Scheduler.setThread, runs, thread]

/-- A wait that finds a packet takes the first one. -/
theorem try_takes (h : log.Agrees p s) {x : PortPacket} {xs : List PortPacket}
    (pending : log.queued = x :: xs) (next : Fin portQueueMax) (frame : WaitFrame) :
    portTry p next frame (s.runs cur) =
      .ok (some x) ((s.runs cur).setPort p { s.ports p with
        queue := Function.update (s.ports p).queue (s.ports p).head none, head := next }) := by
  have ring := h.ring
  rw [pending] at ring
  have front := ring.takeFront_cons next
  simp only [portTry, Prog.bind_apply, Prog.get_apply]
  rw [show (s.runs cur).ports p = s.ports p from rfl, front]
  rfl

/-- A thread that was handed a packet returns it, unless its time is over. -/
theorem rest_returns {pkt : PortPacket} (thread : s.sched.threads cur = some t) (waits : t.WaitsOn p)
    (slot : t.portPacketSlot = some pkt)
    (early : ∀ deadline, t.waiting = some (.portWithTimeout p (some deadline)) → s.ticks < deadline) :
    ∃ s', portRest (s.runs cur) = .ok pkt s' ∧ s'.ports = s.ports ∧
      s'.sched.threads = Function.update s.sched.threads cur (some t.returned) := by
  let s₁ : Tasks := { s with sched := (s.runs cur).sched.modifyAt cur fun t => { t with waiting := none } }
  let s₂ : Tasks := { s₁ with sched := s₁.sched.modifyAt cur fun t => { t with portPacketSlot := none } }
  have take : takePacket s₁ = .ok pkt s₂ := by
    have now : currentThread s₁ = .ok { t with waiting := none } s₁ := by
      simp [currentThread, Scheduler.getCurrentThread, s₁, runs, Scheduler.modifyAt,
        Scheduler.setThread, thread]
    simp only [takePacket, Prog.bind_apply, now, slot, modifyCurrent, modifySched, Prog.modify_apply]
    rfl
  refine ⟨s₂, ?_, rfl, ?_⟩
  · have first : ∀ f : TaskM PortPacket, portRest (s.runs cur) = f s₁ → f s₁ = .ok pkt s₂ →
        portRest (s.runs cur) = .ok pkt s₂ := fun _ eq ok => eq.trans ok
    rcases waits with frame | ⟨deadline, frame⟩
    · refine first takePacket ?_ take
      simp only [portRest, Prog.bind_apply, currentThread_runs thread, frame]
      rfl
    · refine first (portTimeoutRest p deadline) ?_ ?_
      · simp only [portRest, Prog.bind_apply, currentThread_runs thread, frame]
        rfl
      · have on_time : deadline.any (s₁.ticks ≥ ·) = false := by
          cases deadline with
          | none => rfl
          | some d => simpa [s₁] using early d frame
        simp only [portTimeoutRest, Prog.bind_apply, Prog.get_apply, on_time]
        exact take
  · funext i
    by_cases here : i = cur
    · subst here
      simp [s₁, s₂, runs, Scheduler.modifyAt, Scheduler.setThread, thread, Tcb.returned]
    · simp [s₁, s₂, runs, Scheduler.modifyAt, Scheduler.setThread, here]

/-! ### Each step keeps the agreement -/

theorem not_given (h : log.Agrees p s) (thread : s.sched.threads cur = some t)
    (asleep : t.waiting = none ∨ t.state = .blocked) (pkt : PortPacket) : (cur, pkt) ∉ log.given := by
  intro mem
  obtain ⟨u, at_cur, waits, ready, _⟩ := h.given cur pkt mem
  rw [thread] at at_cur
  cases at_cur
  rcases asleep with idle | blocked
  · rcases waits with eq | ⟨d, eq⟩ <;> rw [idle] at eq <;> cases eq
  · rw [blocked] at ready
    cases ready

/-- Another thread has changed: the ones with a packet have not. -/
theorem given_update (h : log.Agrees p s) {t' : Tcb} (clear : ∀ pkt, (cur, pkt) ∉ log.given)
    (threads : s'.sched.threads = Function.update s.sched.threads cur (some t')) :
    ∀ i pkt, (i, pkt) ∈ log.given → ∃ t, s'.sched.threads i = some t ∧ t.WaitsOn p ∧
      t.state = .ready ∧ t.portPacketSlot = some pkt := by
  intro i pkt mem
  obtain ⟨u, at_i, rest⟩ := h.given i pkt mem
  have ne : i ≠ cur := by
    rintro rfl
    exact clear pkt mem
  exact ⟨u, by rw [threads, Function.update_of_ne ne, at_i], rest⟩

/-- The thread in slot `cur` has registered. -/
theorem register (h : log.Agrees p s) (nothing : log.queued = [])
    (thread : s.sched.threads cur = some t) (idle : t.waiting = none) {frame : WaitFrame}
    (on : (t.registered frame).WaitsOn p)
    (threads : s'.sched.threads = Function.update s.sched.threads cur (some (t.registered frame)))
    (ports : s'.ports = Function.update s.ports p { s.ports p with waiter := some t.id }) :
    log.Agrees p s' where
  ids := h.ids.update thread threads rfl
  ring := by
    rw [ports, Function.update_self]
    exact h.ring.congr rfl rfl rfl
  account := h.account
  once := h.once
  given := h.given_update (h.not_given thread (Or.inl idle)) threads
  woken := by
    intro i u at_i waits ready
    rw [threads, Function.update_apply] at at_i
    split_ifs at at_i with eq
    · cases at_i
      cases ready
    · exact h.woken i u at_i waits ready
  waiter := by
    intro tid registered
    rw [ports, Function.update_self] at registered
    cases registered
    exact ⟨nothing, cur, t.registered frame, by rw [threads, Function.update_self], rfl, on, rfl⟩

/-- The first packet of the ring has been taken, and no older one is on its way. -/
theorem take (h : log.Agrees p s) {x : PortPacket} {xs : List PortPacket} {port : Port}
    (pending : log.queued = x :: xs) (none_given : log.given = [])
    (threads : s'.sched.threads = s.sched.threads) (ports : s'.ports p = port)
    (ring : port.Contains xs) (waiter : port.waiter = (s.ports p).waiter) :
    (log.record (.took x)).Agrees p s' where
  ids := by
    intro i j
    rw [threads]
    exact h.ids i j
  ring := by
    rw [ports]
    simpa [PortLog.record, pending] using ring
  account := by
    have account := h.account
    rw [none_given, pending] at account
    simp [PortLog.record, account, none_given, pending]
  once := h.once
  given := by
    intro i pkt mem
    simp [PortLog.record, none_given] at mem
  woken := by
    intro i t
    rw [threads]
    exact h.woken i t
  waiter := by
    intro tid registered
    rw [ports, waiter] at registered
    have nothing := (h.waiter tid registered).1
    rw [pending] at nothing
    cases nothing

/-- The packet has been handed to the thread that waits. -/
theorem hand (h : log.Agrees p s) {x : PortPacket} (registered : (s.ports p).waiter = some t.id)
    (thread : s.sched.threads cur = some t) (waits : t.WaitsOn p) (asleep : t.state = .blocked)
    (threads : s'.sched.threads = Function.update s.sched.threads cur (some (t.handed x)))
    (ports : s'.ports p = { s.ports p with waiter := none }) :
    (log.record (.gave cur x)).Agrees p s' where
  ids := h.ids.update thread threads rfl
  ring := by
    rw [ports]
    exact h.ring.congr rfl rfl rfl
  account := by
    have nothing := (h.waiter t.id registered).1
    simp [PortLog.record, h.account, nothing]
  once := by
    have clear := h.not_given thread (Or.inr asleep)
    simp only [PortLog.record, List.map_append, List.map_cons, List.map_nil]
    refine List.nodup_append.mpr ⟨h.once, by simp, ?_⟩
    rintro a mem b single rfl
    obtain ⟨⟨i, pkt⟩, mem_given, rfl⟩ := List.mem_map.mp mem
    have here : i = cur := List.mem_singleton.mp single
    exact clear pkt (here ▸ mem_given)
  given := by
    intro i pkt mem
    rcases List.mem_append.mp mem with old | new
    · exact h.given_update (h.not_given thread (Or.inr asleep)) threads i pkt old
    · cases List.mem_singleton.mp new
      exact ⟨t.handed x, by rw [threads, Function.update_self], waits, rfl, rfl⟩
  woken := by
    intro i u at_i waits_u ready
    rw [threads, Function.update_apply] at at_i
    split_ifs at at_i with eq
    · exact ⟨x, by simp [PortLog.record, eq]⟩
    · obtain ⟨pkt, mem⟩ := h.woken i u at_i waits_u ready
      exact ⟨pkt, List.mem_append_left _ mem⟩
  waiter := by
    intro tid now
    rw [ports] at now
    cases now

/-- The packet has been put into the ring. -/
theorem keep (h : log.Agrees p s) {x : PortPacket} {port : Port}
    (threads : s'.sched.threads = s.sched.threads) (ports : s'.ports p = port)
    (ring : port.Contains (log.queued ++ [x])) (waiter : port.waiter = none) :
    (log.record (.kept x)).Agrees p s' where
  ids := by
    intro i j
    rw [threads]
    exact h.ids i j
  ring := by
    rw [ports]
    exact ring
  account := by simp [PortLog.record, h.account]
  once := h.once
  given := by
    rw [threads]
    exact h.given
  woken := by
    intro i t
    rw [threads]
    exact h.woken i t
  waiter := by
    intro tid registered
    rw [ports, waiter] at registered
    cases registered

/-- The first thread with a packet has returned it. -/
theorem finish (h : log.Agrees p s) {x : PortPacket} {rest : List (Fin maxThreads × PortPacket)}
    (first : log.given = (cur, x) :: rest) (thread : s.sched.threads cur = some t)
    (ready : t.state = .ready)
    (threads : s'.sched.threads = Function.update s.sched.threads cur (some t.returned))
    (ports : s'.ports = s.ports) : (log.record (.finished cur x)).Agrees p s' := by
  have once := h.once
  rw [first, List.map_cons, List.nodup_cons] at once
  have others : ∀ i pkt, (i, pkt) ∈ rest → i ≠ cur := by
    rintro i pkt mem rfl
    exact once.1 (List.mem_map.mpr ⟨_, mem, rfl⟩)
  have left : log.given.filter (·.1 != cur) = rest := by
    rw [first, List.filter_cons_of_neg (by simp)]
    exact List.filter_eq_self.mpr fun ⟨i, pkt⟩ mem => by simpa using others i pkt mem
  refine ⟨h.ids.update thread threads rfl, ?_, ?_, ?_, ?_, ?_, ?_⟩
  · rw [ports]
    exact h.ring
  · have account := h.account
    rw [first] at account
    simp only [PortLog.record, left, account]
    simp
  · simp only [PortLog.record, left]
    exact once.2
  · intro i pkt mem
    simp only [PortLog.record, left] at mem
    obtain ⟨u, at_i, facts⟩ := h.given i pkt (by rw [first]; exact List.mem_cons_of_mem _ mem)
    exact ⟨u, by rw [threads, Function.update_of_ne (others i pkt mem), at_i], facts⟩
  · intro i u at_i waits awake
    rw [threads, Function.update_apply] at at_i
    split_ifs at at_i with eq
    · cases at_i
      rcases waits with no | ⟨d, no⟩ <;> cases no
    · obtain ⟨pkt, mem⟩ := h.woken i u at_i waits awake
      rw [first, List.mem_cons] at mem
      refine ⟨pkt, ?_⟩
      simp only [PortLog.record, left]
      rcases mem with now | later
      · cases now
        exact absurd rfl eq
      · exact later
  · intro tid registered
    rw [ports] at registered
    obtain ⟨nothing, i, u, at_i, id, waits, asleep⟩ := h.waiter tid registered
    refine ⟨nothing, i, u, ?_, id, waits, asleep⟩
    have ne : i ≠ cur := by
      rintro rfl
      rw [thread] at at_i
      cases at_i
      rw [ready] at asleep
      cases asleep
    rw [threads, Function.update_of_ne ne, at_i]

/-- Nothing that the port calls use has changed. -/
theorem congr (h : log.Agrees p s) (threads : s'.sched.threads = s.sched.threads)
    (ports : s'.ports p = s.ports p) : log.Agrees p s' := by
  refine ⟨?_, ports ▸ h.ring, h.account, h.once, ?_, ?_, ?_⟩
  · unfold Scheduler.DistinctIds
    rw [threads]
    exact h.ids
  · rw [threads]
    exact h.given
  · rw [threads]
    exact h.woken
  · rw [threads, ports]
    exact h.waiter

end PortLog.Agrees

/-! ## Steps -/

namespace PortOp

open Tasks PortLog

variable {p : Nat} {s : Tasks} {log : PortLog} {cur : Fin maxThreads} {t : Tcb}

/-- What a step leads to. -/
def Keeps (p : Nat) (log : PortLog) (out : Outcome Tasks Status PortEvent) : Prop :=
  match out with
  | .ok event s => (log.record event).Agrees p s
  | .err _ s => log.Agrees p s
  | .fault _ => False

/-- Both waits, each with the head that it leaves behind. -/
theorem keeps_try (h : log.Agrees p s) (thread : s.sched.threads cur = some t) (idle : t.waiting = none)
    (next : Fin portQueueMax) (frame : WaitFrame) (on : (t.registered frame).WaitsOn p)
    (alone : log.queued ≠ [] → log.given = [])
    (moves : ∀ x xs, log.queued = x :: xs → Port.Contains { s.ports p with
      queue := Function.update (s.ports p).queue (s.ports p).head none, head := next } xs)
    {m : TaskM PortEvent} (found : ∀ s' x, portTry p next frame (s.runs cur) = .ok (some x) s' →
      m s = .ok (.took x) s')
    (missed : ∀ s', portTry p next frame (s.runs cur) = .ok none s' → m s = .ok .nothing s') :
    Keeps p log (m s) := by
  cases pending : log.queued with
  | nil =>
    obtain ⟨s', ran, threads, ports⟩ := h.try_blocks pending thread next frame
    rw [missed s' ran]
    exact h.register pending thread idle on threads ports
  | cons x xs =>
    rw [found _ x (h.try_takes pending next frame)]
    exact h.take pending (alone (by simp [pending])) rfl (Function.update_self _ _ _)
      (moves x xs pending) rfl

theorem keeps_wait (h : log.Agrees p s) (thread : s.sched.threads cur = some t) (idle : t.waiting = none)
    (alone : log.queued ≠ [] → log.given = []) : Keeps p log (exec p (.wait cur) s) := by
  refine keeps_try h thread idle (Port.advance (s.ports p).head) (.port p) (Or.inl rfl) alone ?_ ?_ ?_
  · intro x xs pending
    exact Port.Contains.wait (x := x) (pending ▸ h.ring)
  · intro s' x ran
    have ran' : portWaitTry p (s.runs cur) = .ok (some x) s' := ran
    exact Prog.bind_ok ran'
  · intro s' ran
    have ran' : portWaitTry p (s.runs cur) = .ok none s' := ran
    exact Prog.bind_ok ran'

theorem keeps_waitWithTimeout (h : log.Agrees p s) (thread : s.sched.threads cur = some t)
    (idle : t.waiting = none) (ms : Nat) (alone : log.queued ≠ [] → log.given = [])
    (single : log.queued.length ≤ 1) : Keeps p log (exec p (.waitWithTimeout cur ms) s) := by
  refine keeps_try h thread idle (Port.advance (s.ports p).tail)
    (.portWithTimeout p (s.portDeadline ms)) (Or.inr ⟨_, rfl⟩) alone ?_ ?_ ?_
  · intro x xs pending
    have last : xs = [] := by
      rw [pending, List.length_cons] at single
      exact List.eq_nil_of_length_eq_zero (by omega)
    subst last
    exact Port.Contains.waitWithTimeout (pending ▸ h.ring)
  · intro s' x ran
    have ran' : portWaitWithTimeoutTry p ms (s.runs cur) = .ok (some x) s' := ran
    exact Prog.bind_ok ran'
  · intro s' ran
    have ran' : portWaitWithTimeoutTry p ms (s.runs cur) = .ok none s' := ran
    exact Prog.bind_ok ran'

theorem keeps_queue (h : log.Agrees p s) (pkt : PortPacket) : Keeps p log (exec p (.queue pkt) s) := by
  cases registered : (s.ports p).waiter with
  | some tid =>
    obtain ⟨_, i, t, thread, rfl, waits, asleep⟩ := h.waiter tid registered
    have slot : (s.ports p).waiter.bind s.sched.slotOf = some i := by
      rw [registered]
      exact h.ids.slotOf thread
    simp only [exec, portQueue, Prog.bind_apply, Prog.get_apply, Prog.modify_apply, slot, modifySched]
    refine h.hand registered thread waits asleep ?_ (Function.update_self _ _ _)
    simp [setPort, Scheduler.modifyAt, Scheduler.setThread, thread, Tcb.handed]
  | none =>
    have same : { s.ports p with waiter := none } = s.ports p := by
      rw [← registered]
    have slot : (s.ports p).waiter.bind s.sched.slotOf = none := by rw [registered]; rfl
    cases room : (s.ports p).append pkt with
    | some port =>
      obtain ⟨ring, waiter⟩ := h.ring.append room
      simp only [exec, portQueue, Prog.bind_apply, Prog.get_apply, Prog.modify_apply, slot, same, room]
      exact h.keep rfl (Function.update_self _ _ _) ring (waiter.trans registered)
    | none =>
      simp only [exec, portQueue, Prog.bind_apply, Prog.get_apply, Prog.modify_apply, slot, same, room,
        Prog.throw_apply]
      exact h.congr rfl (Function.update_self _ _ _)

theorem exec_resume {pkt : PortPacket} (h : log.Agrees p s) (mem : (cur, pkt) ∈ log.given)
    (early : ∀ t deadline, s.sched.threads cur = some t →
      t.waiting = some (.portWithTimeout p (some deadline)) → s.ticks < deadline) :
    ∃ t s', exec p (.resume cur) s = .ok (.finished cur pkt) s' ∧ s.sched.threads cur = some t ∧
      t.state = .ready ∧ s'.ports = s.ports ∧
      s'.sched.threads = Function.update s.sched.threads cur (some t.returned) := by
  obtain ⟨t, thread, waits, ready, slot⟩ := h.given cur pkt mem
  obtain ⟨s', ran, ports, threads⟩ :=
    PortLog.Agrees.rest_returns thread waits slot fun d => early t d thread
  refine ⟨t, s', ?_, thread, ready, ports, threads⟩
  exact Prog.bind_ok ran

theorem keeps_resume (h : log.Agrees p s) (first : (log.given.map (·.1)).head? = some cur)
    (early : ∀ t deadline, s.sched.threads cur = some t →
      t.waiting = some (.portWithTimeout p (some deadline)) → s.ticks < deadline) :
    Keeps p log (exec p (.resume cur) s) := by
  cases given : log.given with
  | nil => simp [given] at first
  | cons entry rest =>
    obtain ⟨i, pkt⟩ := entry
    have here : i = cur := by simpa [given] using first
    subst here
    obtain ⟨t, s', ran, thread, ready, ports, threads⟩ :=
      exec_resume h (show (i, pkt) ∈ log.given by simp [given]) early
    rw [ran]
    exact h.finish given thread ready threads ports

theorem keeps (op : PortOp) (h : log.Agrees p s) (enabled : op.Enabled p s)
    (timely : op.Timely p ⟨s, log⟩) : Keeps p log (op.exec p s) := by
  cases op with
  | wait cur =>
    obtain ⟨t, thread, idle⟩ := enabled
    exact keeps_wait h thread idle timely
  | waitWithTimeout cur ms =>
    obtain ⟨t, thread, idle⟩ := enabled
    exact keeps_waitWithTimeout h thread idle ms timely.1 timely.2
  | queue pkt => exact keeps_queue h pkt
  | resume cur => exact keeps_resume h timely.1 timely.2
  | tick => exact h.congr rfl rfl

/-! ## Runs -/

/-- The port is new and no thread waits on it. -/
structure Fresh (p : Nat) (s : Tasks) : Prop where
  ids : s.sched.DistinctIds
  created : ∃ id len, Port.new id len = .ok (s.ports p)
  idle : ∀ i t, s.sched.threads i = some t → ¬ t.WaitsOn p

theorem Fresh.agrees (h : Fresh p s) : PortLog.new.Agrees p s := by
  obtain ⟨id, len, made⟩ := h.created
  unfold Port.new at made
  split_ifs at made
  have port := (Except.ok.inj made).symm
  refine ⟨h.ids, ?_, rfl, List.nodup_nil, ?_, ?_, ?_⟩
  · rw [port]
    exact Or.inl (Ring.holds_empty _)
  · intro i pkt mem
    cases mem
  · intro i t thread waits
    exact absurd waits (h.idle i t thread)
  · intro tid registered
    rw [port] at registered
    cases registered

theorem agrees_of_run {s₀ : Tasks} {tr : PortTrace} (fresh : Fresh p s₀)
    (run : (system p).Run (Timely p) ⟨s₀, .new⟩ tr) : tr.log.Agrees p tr.tasks := by
  refine run.invariant (I := fun tr => tr.log.Agrees p tr.tasks) fresh.agrees ?_
  intro op tr tr' h timely step
  have kept := keeps op h step.enabled timely
  have ran := step.ran
  simp only [system, traced] at ran
  cases out : op.exec p tr.tasks with
  | ok event s =>
    rw [out] at ran kept
    cases ran
    exact kept
  | err e s =>
    rw [out] at ran kept
    cases ran
    exact kept
  | fault s =>
    rw [out] at ran
    cases ran

/-- Accepted packets are returned in order and once: what has not been returned is in the slot of a
ready thread, which returns it when it resumes in time, or in the ring, and then a wait returns it at
once. -/
structure Delivers (p : Nat) (tr : PortTrace) : Prop where
  account : tr.log.accepted = tr.log.returned ++ tr.log.given.map (·.2) ++ tr.log.queued
  once : (tr.log.given.map (·.1)).Nodup
  given : ∀ cur pkt, (cur, pkt) ∈ tr.log.given →
    (∃ t, tr.tasks.sched.threads cur = some t ∧ t.WaitsOn p ∧ t.state = .ready) ∧
    ((∀ t deadline, tr.tasks.sched.threads cur = some t →
      t.waiting = some (.portWithTimeout p (some deadline)) → tr.tasks.ticks < deadline) →
      ∃ s, exec p (.resume cur) tr.tasks = .ok (.finished cur pkt) s)
  pending : ∀ x xs, tr.log.queued = x :: xs → ∀ cur, (wait cur).Enabled p tr.tasks →
    (∃ s, exec p (.wait cur) tr.tasks = .ok (.took x) s) ∧
    ∀ ms, ∃ s, exec p (.waitWithTimeout cur ms) tr.tasks = .ok (.took x) s

theorem delivers_of_agrees {tr : PortTrace} (h : tr.log.Agrees p tr.tasks) : Delivers p tr where
  account := h.account
  once := h.once
  given cur pkt mem := by
    obtain ⟨t, thread, waits, ready, _⟩ := h.given cur pkt mem
    refine ⟨⟨t, thread, waits, ready⟩, fun early => ?_⟩
    obtain ⟨_, s', ran, _⟩ := exec_resume h mem early
    exact ⟨s', ran⟩
  pending x xs pending cur _ := by
    constructor
    · have ran : portWaitTry p (tr.tasks.runs cur) = .ok (some x) _ := h.try_takes pending _ _
      exact ⟨_, Prog.bind_ok ran⟩
    · intro ms
      have ran : portWaitWithTimeoutTry p ms (tr.tasks.runs cur) = .ok (some x) _ :=
        h.try_takes pending _ _
      exact ⟨_, Prog.bind_ok ran⟩

end PortOp

/-- A wait that finds a packet in the ring is made only when every packet that was handed out has been
returned, a timed wait finds at most one packet there, threads with a packet resume in the order in
which they were given it, and timed ones before their deadline. Then the port delivers. -/
theorem port_delivers (p : Nat) (s₀ : Tasks) (tr : PortTrace) (fresh : PortOp.Fresh p s₀)
    (run : (PortOp.system p).Run (PortOp.Timely p) ⟨s₀, .new⟩ tr) : PortOp.Delivers p tr :=
  PortOp.delivers_of_agrees (PortOp.agrees_of_run fresh run)

/-- Threads that have made no call yet. -/
def Tasks.crew (n : Nat) : Tasks :=
  { Tasks.boot with sched := { Scheduler.new with
      threads := fun i => if i.val < n then some (Tcb.demo (i.val + 1)) else none } }

theorem Tasks.crew_thread {n : Nat} {i : Fin maxThreads} {t : Tcb}
    (thread : (Tasks.crew n).sched.threads i = some t) : t = Tcb.demo (i.val + 1) := by
  simp only [Tasks.crew, Option.ite_none_right_eq_some, Option.some.injEq] at thread
  exact thread.2.symm

theorem Tasks.crew_ids (n : Nat) : (Tasks.crew n).sched.DistinctIds := by
  intro i j t u thread_i thread_j same
  rw [Tasks.crew_thread thread_i, Tasks.crew_thread thread_j] at same
  apply Fin.ext
  exact Nat.succ.inj same

theorem Tasks.crew_fresh (n p : Nat) : PortOp.Fresh p (Tasks.crew n) where
  ids := Tasks.crew_ids n
  created := ⟨p, portQueueMax, rfl⟩
  idle i t thread waits := by
    rw [Tasks.crew_thread thread] at waits
    rcases waits with no | ⟨d, no⟩ <;> cases no

def Tasks.first : Fin maxThreads := ⟨0, by decide⟩
def Tasks.second : Fin maxThreads := ⟨1, by decide⟩

def PortPacket.demo (key : Nat) : PortPacket := ⟨key, 0, 0, []⟩

/-- A thread waits and is handed the first packet; the second is taken from the ring. -/
def PortOp.exchange : List PortOp :=
  [.wait Tasks.first, .queue (.demo 1), .resume Tasks.first, .queue (.demo 2),
    .waitWithTimeout Tasks.second 50]

theorem port_delivers_exchange :
    ((PortOp.system 0).after ⟨Tasks.crew 2, .new⟩ PortOp.exchange).log.returned =
        [PortPacket.demo 1, PortPacket.demo 2] ∧
      PortOp.Delivers 0 ((PortOp.system 0).after ⟨Tasks.crew 2, .new⟩ PortOp.exchange) := by
  refine ⟨by decide, port_delivers 0 (Tasks.crew 2) _ (Tasks.crew_fresh 2 0)
    (Stepper.Run.start.follow ⟨?_, ?_, by decide, ?_, ?_, by decide, ?_, ?_, by decide, ?_, ?_,
      by decide, ?_, ?_, by decide, ?_⟩)⟩
  · exact fun pending => absurd rfl pending
  · exact ⟨_, rfl, rfl⟩
  · trivial
  · trivial
  · refine ⟨rfl, fun t deadline thread timed => ?_⟩
    cases thread
    cases timed
  · exact ⟨_, rfl, Or.inl rfl, rfl⟩
  · trivial
  · trivial
  · exact ⟨fun _ => rfl, by decide⟩
  · exact ⟨_, rfl, rfl⟩
  · trivial

/-- Of two packets in the ring a timed wait takes the first, and the next wait does not find the
other. -/
theorem timed_wait_hides_packet :
    ¬ ∀ (p : Nat) (s₀ : Tasks) (tr : PortTrace), PortOp.Fresh p s₀ →
      (PortOp.system p).Run (fun _ _ => True) ⟨s₀, .new⟩ tr → PortOp.Delivers p tr := by
  intro claim
  have run : (PortOp.system 0).Run (fun _ _ => True) ⟨Tasks.crew 1, .new⟩
      ((PortOp.system 0).after ⟨Tasks.crew 1, .new⟩
        [.queue (.demo 1), .queue (.demo 2), .waitWithTimeout Tasks.first 50]) :=
    Stepper.Run.start.follow ⟨trivial, trivial, by decide, trivial, trivial, by decide, trivial,
      ⟨_, rfl, rfl⟩, by decide, trivial⟩
  have delivers := claim 0 (Tasks.crew 1) _ (Tasks.crew_fresh 1 0) run
  obtain ⟨⟨s, ran⟩, _⟩ := delivers.pending (.demo 2) [] rfl Tasks.first ⟨_, rfl, rfl⟩
  cases ran

end CapsuleOS
