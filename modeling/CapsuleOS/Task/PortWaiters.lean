import CapsuleOS.Task.PortCalls
import CapsuleOS.Task.TaskRuns

/-!
# Threads that wait on a port

A port records one waiter. A second wait takes the place of the first one, and `Port::queue` writes the
state of the thread it wakes without putting it into a ready queue. So a port serves the threads blocked
on it, in the sense of `PortServes`, only when there are none.
-/
namespace CapsuleOS

open Lib

def WaitFrame.onPort (p : Nat) : WaitFrame → Bool
  | .port q => q == p
  | .portWithTimeout q _ => q == p
  | .futex _ => false

theorem Tcb.waitsOn_iff {p : Nat} {t : Tcb} : t.waiting.any (·.onPort p) = true ↔ t.WaitsOn p := by
  unfold Tcb.WaitsOn
  cases t.waiting with
  | none => simp
  | some frame => cases frame <;> simp [WaitFrame.onPort]

instance (p : Nat) (t : Tcb) : Decidable (t.WaitsOn p) := decidable_of_iff _ Tcb.waitsOn_iff

namespace Tasks

/-- The thread in this slot is blocked in a wait on the port. -/
def blockedOn (s : Tasks) (p : Nat) (i : Fin maxThreads) : Bool :=
  (s.sched.threads i).any fun t => decide (t.WaitsOn p) && t.state == .blocked

/-- The threads blocked in a wait on the port. -/
def portWaiters (s : Tasks) (p : Nat) : List (Fin maxThreads) :=
  (List.finRange maxThreads).filter (s.blockedOn p)

/-- The thread is ready and in the queue of its priority. -/
def enqueued (s : Tasks) (i : Fin maxThreads) : Bool :=
  (s.sched.threads i).any fun t =>
    t.state == .ready && decide (i ∈ (s.sched.queues t.priority).items)

variable {s s' : Tasks} {p : Nat} {i : Fin maxThreads}

theorem mem_portWaiters : i ∈ s.portWaiters p ↔ s.blockedOn p i = true := by
  simp [portWaiters]

theorem blockedOn_iff : s.blockedOn p i = true ↔
    ∃ t, s.sched.threads i = some t ∧ t.WaitsOn p ∧ t.state = .blocked := by
  simp [blockedOn, Option.any_eq_true]

/-! ## What `Port::queue` leaves alone -/

theorem portQueue_queues {pkt : PortPacket} {u : Unit} (ran : portQueue p pkt s = .ok u s') :
    s'.sched.queues = s.sched.queues := by
  simp only [portQueue, Prog.bind_apply, Prog.get_apply, Prog.modify_apply, modifySched] at ran
  cases woken : (s.ports p).waiter.bind s.sched.slotOf with
  | some j =>
    simp only [woken] at ran
    cases ran
    rfl
  | none =>
    cases room : Port.append { s.ports p with waiter := none } pkt with
    | some port =>
      simp only [woken, room] at ran
      cases ran
      rfl
    | none => simp [woken, room] at ran

/-- A recorded waiter takes the packet. -/
theorem portQueue_accepts {t : Tcb} (thread : s.sched.threads i = some t)
    (recorded : (s.ports p).waiter = some t.id) (pkt : PortPacket) :
    ∃ s', portQueue p pkt s = .ok () s' := by
  have found : s.sched.slotOf t.id ≠ none := by
    intro none
    have miss := List.find?_eq_none.mp none i (List.mem_finRange i)
    simp [thread] at miss
  obtain ⟨j, slot⟩ := Option.ne_none_iff_exists'.mp found
  simp [portQueue, Prog.bind_apply, recorded, slot, modifySched]

end Tasks

/-- Every thread blocked on the port is recorded there, and accepted packets make as many of them
ready and enqueued as there are packets, or all of them. -/
structure PortServes (p : Nat) (s : Tasks) : Prop where
  recorded : ∀ i t, s.sched.threads i = some t → t.WaitsOn p → t.state = .blocked →
    (s.ports p).waiter = some t.id
  wakes : ∀ pkts s', Prog.forEach (Tasks.portQueue p) pkts s = .ok () s' →
    ((s.portWaiters p).filter s'.enqueued).length = min pkts.length (s.portWaiters p).length

namespace PortServes

variable {s : Tasks} {p : Nat}

theorem of_no_waiter (h : ∀ i, s.blockedOn p i = false) : PortServes p s := by
  have none_waits : s.portWaiters p = [] := by
    apply List.filter_eq_nil_iff.mpr
    intro i _
    simp [h i]
  constructor
  · intro i t thread waits blocked
    have on := Tasks.blockedOn_iff.mpr ⟨t, thread, waits, blocked⟩
    rw [h i] at on
    cases on
  · intro pkts s' _
    simp [none_waits]

/-- One accepted packet enqueues nobody: a blocked thread is in no queue, and the queues stay. -/
theorem no_waiter (h : PortServes p s) (order : s.sched.Orderly) (i : Fin maxThreads) :
    s.blockedOn p i = false := by
  by_contra on
  rw [Bool.not_eq_false] at on
  obtain ⟨t, thread, waits, blocked⟩ := Tasks.blockedOn_iff.mp on
  obtain ⟨s', ran⟩ :=
    Tasks.portQueue_accepts thread (h.recorded i t thread waits blocked) ⟨0, 0, 0, []⟩
  have count := h.wakes [⟨0, 0, 0, []⟩] s' (Prog.bind_ok ran)
  have nobody : (s.portWaiters p).filter s'.enqueued = [] := by
    apply List.filter_eq_nil_iff.mpr
    intro j mem enqueued
    obtain ⟨u, at_j, _, asleep⟩ := Tasks.blockedOn_iff.mp (Tasks.mem_portWaiters.mp mem)
    obtain ⟨v, _, queued⟩ := (Option.any_eq_true _ _).mp enqueued
    simp only [Bool.and_eq_true, decide_eq_true_eq, Tasks.portQueue_queues ran] at queued
    obtain ⟨w, at_j', ready, _⟩ := order.ready _ j queued.2
    rw [at_j] at at_j'
    cases at_j'
    rw [asleep] at ready
    cases ready
  have some_waits : 0 < (s.portWaiters p).length :=
    List.length_pos_of_mem (Tasks.mem_portWaiters.mpr on)
  rw [nobody] at count
  simp only [List.length_nil, List.length_singleton] at count
  omega

end PortServes

/-- In every state that is reached, a port serves its waiters exactly when no thread is blocked in a
wait on it. -/
theorem port_serves_iff (p : Nat) (s : Tasks)
    (run : TaskOp.Run (fun _ _ => True) Tasks.boot s) :
    PortServes p s ↔ ∀ i t, s.sched.threads i = some t → t.WaitsOn p → t.state ≠ .blocked := by
  have order := (run.orderly Scheduler.new_orderly Scheduler.new_awake).1
  constructor
  · intro serves i t thread waits blocked
    have off := serves.no_waiter order i
    rw [Tasks.blockedOn_iff.mpr ⟨t, thread, waits, blocked⟩] at off
    cases off
  · intro free
    apply PortServes.of_no_waiter
    intro i
    by_contra on
    rw [Bool.not_eq_false] at on
    obtain ⟨t, thread, waits, blocked⟩ := Tasks.blockedOn_iff.mp on
    exact free i t thread waits blocked

/-- Two of three threads wait on the same port. -/
def Tasks.twoWaiters : List TaskOp :=
  [.add (Tcb.demo 1), .add (Tcb.demo 2), .add (Tcb.demo 3), .run, .portWait 0, .portWait 0]

theorem Tasks.twoWaiters_follows :
    TaskOp.Follows (fun _ _ => True) Tasks.boot Tasks.twoWaiters :=
  ⟨trivial, trivial, by decide, trivial, trivial, by decide, trivial, trivial, by decide, trivial, rfl,
    by decide, trivial, trivial, by decide, trivial, trivial, by decide, trivial⟩

theorem port_serves_iff_two_waiters :
    PortServes 0 (TaskOp.after Tasks.boot Tasks.twoWaiters) ↔
      ∀ i t, (TaskOp.after Tasks.boot Tasks.twoWaiters).sched.threads i = some t →
        t.WaitsOn 0 → t.state ≠ .blocked :=
  port_serves_iff 0 _ (TaskOp.Run.start.follow Tasks.twoWaiters_follows)

/-- Of two waiters the port records the second. -/
theorem first_waiter_stranded :
    ∃ s, TaskOp.Run (fun _ _ => True) Tasks.boot s ∧ ¬ PortServes 0 s := by
  refine ⟨TaskOp.after Tasks.boot Tasks.twoWaiters, TaskOp.Run.start.follow Tasks.twoWaiters_follows,
    fun serves => ?_⟩
  have recorded := serves.recorded ⟨0, by decide⟩ _ rfl (Or.inl rfl) rfl
  revert recorded
  decide

end CapsuleOS
