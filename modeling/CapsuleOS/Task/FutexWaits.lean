import CapsuleOS.Task.FutexCalls
import CapsuleOS.Task.TaskRuns

/-!
# Futex waits and wakes

Runs of the blocking calls, with the line of the threads that wait in `Futex::wait`, in the order in
which they came and each with its address. As long as no wake stops in the middle of a bucket, the
table holds this line, bucket by bucket, and a wake is exact when it takes a whole bucket whose threads
all wait on its address. A wake compares no address, and after one that stopped early the table has lost
the rest of the bucket.
-/
namespace CapsuleOS

open Lib

namespace FutexTable

/-- The threads that the links of a bucket reach. -/
def queued (table : FutexTable) (b : Fin futexBuckets) : List Nat :=
  match table b with
  | none => []
  | some e => e.queued

/-- The threads that a wake takes off the table. -/
def woken (table : FutexTable) (addr count : Nat) : List Nat :=
  match table (hashAddr addr) with
  | none => []
  | some e => (e.wakeFromEntry count).2

def Lists (table : FutexTable) (b : Fin futexBuckets) (path : FutexPath) : Prop :=
  match table b with
  | none => path = []
  | some e => e.Lists path

variable {table : FutexTable} {b : Fin futexBuckets} {path : FutexPath} {addr : Nat}

theorem Lists.queued_eq (h : table.Lists b path) : table.queued b = path.map (·.2) := by
  unfold Lists at h
  unfold FutexTable.queued
  cases entry : table b with
  | none =>
    rw [entry] at h
    rw [show path = [] from h]
    rfl
  | some e =>
    rw [entry] at h
    exact FutexEntry.Lists.queued_eq h

theorem Lists.entry (h : table.Lists (hashAddr addr) path) : (table.getOrCreateEntry addr).Lists path := by
  unfold Lists at h
  unfold getOrCreateEntry
  cases entry : table (hashAddr addr) with
  | none =>
    rw [entry] at h
    cases h
    exact FutexEntry.new_lists addr
  | some e =>
    rw [entry] at h
    exact h

theorem set_lists {e : FutexEntry} (h : e.Lists path) : (table.set addr e).Lists (hashAddr addr) path := by
  simpa [Lists, set] using h

theorem set_lists_of_ne {e : FutexEntry} (h : table.Lists b path) (ne : b ≠ hashAddr addr) :
    (table.set addr e).Lists b path := by
  simpa [Lists, set, ne] using h

end FutexTable

/-! ## Runs with the line -/

structure FutexTrace where
  tasks : Tasks
  /-- Who waits in `Futex::wait` and on which address, the longest-waiting thread first. -/
  line : List (Nat × Nat)

namespace FutexTrace

/-- The part of the line that shares a bucket. -/
def bucket (tr : FutexTrace) (b : Fin futexBuckets) : List (Nat × Nat) :=
  tr.line.filter fun x => FutexTable.hashAddr x.2 = b

/-- The thread is blocked. -/
def asleep (tr : FutexTrace) (tid : Nat) : Bool :=
  (List.finRange maxThreads).any fun i =>
    (tr.tasks.sched.threads i).any fun t => t.id == tid && t.state == .blocked

/-- The threads blocked in `Futex::wait` on the address, the longest-waiting first. -/
def waitersOn (tr : FutexTrace) (addr : Nat) : List Nat :=
  (tr.line.filter fun x => decide (x.2 = addr) && tr.asleep x.1).map (·.1)

end FutexTrace

namespace TaskOp

/-- The line after an operation that has returned. -/
def lineAfter (s : Tasks) (line : List (Nat × Nat)) : TaskOp → List (Nat × Nat)
  | .futexWait addr expected value =>
    match s.sched.getCurrentThread with
    | some t => if value = expected then line ++ [(t.id, addr)] else line
    | none => line
  | .futexWake addr count => line.filter fun x => x.1 ∉ s.futexes.woken addr count
  | .futexRequeue addr count _ => line.filter fun x => x.1 ∉ s.futexes.woken addr count
  | .resume =>
    match s.sched.getCurrentThread with
    | some t => if t.futexCall = none then line else line.filter fun x => x.1 ≠ t.id
    | none => line
  | _ => line

def traced (op : TaskOp) : Prog FutexTrace Status Unit := fun tr =>
  match op.exec tr.tasks with
  | .ok () s => .ok () ⟨s, op.lineAfter tr.tasks tr.line⟩
  | .err e s => .err e ⟨s, tr.line⟩
  | .fault s => .fault ⟨s, tr.line⟩

/-- The running thread is in no call. -/
def Idle (s : Tasks) : Prop := ∀ t, s.sched.getCurrentThread = some t → t.waiting = none

/-- The scheduler is started once, new threads have new ids, and a thread makes a call that can block
when it is in no other. -/
def Possible (tr : FutexTrace) : TaskOp → Prop
  | .run => tr.tasks.sched.running = false
  | .add thread => thread.waiting = none ∧
      ∀ i t, tr.tasks.sched.threads i = some t → t.id ≠ thread.id
  | .channelBlock => Idle tr.tasks
  | .portWait _ => Idle tr.tasks
  | .portWaitWithTimeout _ _ => Idle tr.tasks
  | .futexWait _ _ _ => Idle tr.tasks
  | _ => True

def futexSystem : Stepper FutexTrace Status TaskOp where
  exec := traced
  Enabled := Possible

/-- No wake stops in the middle of a bucket. -/
def Whole (tr : FutexTrace) : TaskOp → Prop
  | .futexWake addr count =>
    count = 0 ∨ (tr.bucket (FutexTable.hashAddr addr)).length ≤ count
  | .futexRequeue addr count _ =>
    count = 0 ∨ (tr.bucket (FutexTable.hashAddr addr)).length ≤ count
  | _ => True

end TaskOp

/-! ## Calls that leave the futexes alone -/

namespace Tasks

/-- The futex table is the same and so are the futex calls of the threads. -/
structure Aside (s s' : Tasks) : Prop where
  table : s'.futexes = s.futexes
  calls : s.sched.KeepsCalls s'.sched

instance : Std.Refl Aside := ⟨fun _ => ⟨rfl, .refl _⟩⟩

instance : IsTrans Tasks Aside :=
  ⟨fun _ _ _ h h' => ⟨h'.table.trans h.table, h.calls.trans h'.calls⟩⟩

variable {s : Tasks} {p : Nat}

theorem Aside.trans {s s' s'' : Tasks} (h : s.Aside s') (h' : s'.Aside s'') : s.Aside s'' :=
  IsTrans.trans _ _ _ h h'

theorem aside_setPort (s : Tasks) (p : Nat) (port : Port) : s.Aside (s.setPort p port) :=
  ⟨rfl, .refl _⟩

theorem aside_sched {sched : Scheduler} (h : s.sched.KeepsCalls sched) : s.Aside { s with sched } :=
  ⟨rfl, h⟩

theorem aside_onSched {α : Type} {m : SchedM α} (h : s.sched.KeepsCalls (m s.sched).state) :
    s.Aside (onSched m s).state := by
  unfold onSched Prog.zoom
  cases out : m s.sched <;> rw [out] at h <;> exact ⟨rfl, h⟩

theorem giveUp_keeps (s : Scheduler) : s.KeepsCalls (giveUp s) := by
  have step : s.KeepsCalls (s.onCurrent fun t => if t.state = .blocked then t.withState .ready else t) := by
    refine .onCurrent fun t _ => ?_
    split_ifs
    · exact .withState t (by decide)
    · exact .refl t
  exact step

theorem aside_takePacket : Prog.Within Aside takePacket := by
  intro s
  cases cur : s.sched.getCurrentThread with
  | none =>
    simp only [takePacket, Prog.bind_apply, currentThread, cur]
    exact Std.Refl.refl s
  | some t =>
    have step : s.Aside { s with sched := s.sched.onCurrent fun t => { t with portPacketSlot := none } } :=
      aside_sched (.onCurrent fun t _ => ⟨rfl, rfl, fun _ => id⟩)
    simp only [takePacket, Prog.bind_apply, currentThread, cur, modifyCurrent, modifySched,
      Prog.modify_apply]
    cases t.portPacketSlot <;> exact step

theorem aside_portTimeoutRest (p : Nat) (deadline : Option Nat) :
    Prog.Within Aside (portTimeoutRest p deadline) := by
  intro s
  simp only [portTimeoutRest, Prog.bind_apply, Prog.get_apply]
  split_ifs
  · exact (aside_setPort s p _).trans (aside_sched (giveUp_keeps _))
  · exact aside_takePacket s

theorem aside_portQueue (p : Nat) (pkt : PortPacket) : Prog.Within Aside (portQueue p pkt) := by
  intro s
  have cleared : s.Aside (s.setPort p { s.ports p with waiter := none }) := aside_setPort s p _
  refine cleared.trans ?_
  simp only [portQueue, Prog.bind_apply, Prog.get_apply, Prog.modify_apply]
  cases (s.ports p).waiter.bind s.sched.slotOf with
  | some i =>
    refine aside_sched (.modifyAt fun t _ => ?_)
    exact ⟨rfl, rfl, fun _ blocked => by cases blocked⟩
  | none =>
    cases Port.append { s.ports p with waiter := none } pkt with
    | some port => exact aside_setPort _ p _
    | none => exact Std.Refl.refl _

/-- A thread in no call registers on a port and blocks. -/
theorem aside_portBlock (idle : TaskOp.Idle s) {frame : WaitFrame}
    (on : ∀ addr, frame ≠ .futex addr) : s.Aside (portBlock p frame s).state := by
  rw [portBlock_eq]
  cases cur : s.sched.getCurrentThread with
  | none =>
    simp only [portRegister, Prog.bind_apply, currentThread, cur]
    exact Std.Refl.refl s
  | some t =>
    have outside : (t.registered frame).futexCall = none := by
      cases frame with
      | futex addr => exact absurd rfl (on addr)
      | port _ => rfl
      | portWithTimeout _ _ => rfl
    have write : s.sched.KeepsCalls (s.sched.onCurrent (Tcb.registered frame)) := by
      refine .onCurrent fun u here => ?_
      rw [cur] at here
      cases here
      exact .outside rfl (by simp [Tcb.futexCall, idle t cur]) outside
    have registered := (aside_sched write).trans (aside_setPort _ p { s.ports p with waiter := some t.id })
    have ran : portRegister p frame s = .ok () (Tasks.setPort
        { s with sched := s.sched.onCurrent (Tcb.registered frame) } p
        { s.ports p with waiter := some t.id }) := by
      simp only [portRegister, Prog.bind_apply, currentThread, cur, modifyCurrent, modifySched,
        Prog.modify_apply]
      rfl
    rw [Prog.bind_ok ran]
    have left : Prog.Within Aside (giveWay none) :=
      Prog.Within.bind (fun s => aside_onSched (.schedule s.sched)) fun _ => Prog.Within.pure _
    exact registered.trans (left _)

theorem aside_portWait (idle : TaskOp.Idle s) : s.Aside (portWait p s).state := by
  unfold portWait
  rw [Prog.bind_ok (Prog.get_apply s)]
  cases (s.ports p).takeFront (Port.advance (s.ports p).head) with
  | some r => exact aside_setPort s p r.2
  | none => exact aside_portBlock idle fun _ no => by cases no

theorem aside_portWaitWithTimeout (idle : TaskOp.Idle s) (ms : Nat) :
    s.Aside (portWaitWithTimeout p ms s).state := by
  unfold portWaitWithTimeout
  rw [Prog.bind_ok (Prog.get_apply s)]
  cases (s.ports p).takeFront (Port.advance (s.ports p).tail) with
  | some r => exact aside_setPort s p r.2
  | none => exact aside_portBlock idle fun _ no => by cases no

/-- A thread that is not in a futex call finishes its call. -/
theorem aside_resume (outside : ∀ t, s.sched.getCurrentThread = some t → t.futexCall = none) :
    s.Aside (resume s).state := by
  cases cur : s.sched.getCurrentThread with
  | none =>
    simp only [resume, Prog.bind_apply, currentThread, cur]
    exact Std.Refl.refl s
  | some t =>
    have call := outside t cur
    have left : s.Aside { s with sched := s.sched.onCurrent fun t => { t with waiting := none } } := by
      refine aside_sched (.onCurrent fun u here => ?_)
      rw [cur] at here
      cases here
      exact .outside rfl call rfl
    have rest : ∀ m : TaskM Unit, resume s = m { s with
        sched := s.sched.onCurrent fun t => { t with waiting := none } } → Prog.Within Aside m →
        s.Aside (resume s).state := by
      intro m eq within
      rw [eq]
      exact left.trans (within _)
    cases frame : t.waiting with
    | none =>
      refine rest (pure ()) ?_ (Prog.Within.pure ())
      simp only [resume, Prog.bind_apply, currentThread, cur, frame]
      rfl
    | some frame' =>
      cases frame' with
      | port q =>
        refine rest (takePacket >>= fun _ => pure ()) ?_ (aside_takePacket.bind fun _ => Prog.Within.pure ())
        simp only [resume, Prog.bind_apply, currentThread, cur, frame]
        rfl
      | portWithTimeout q deadline =>
        refine rest (portTimeoutRest q deadline >>= fun _ => pure ()) ?_
          ((aside_portTimeoutRest q deadline).bind fun _ => Prog.Within.pure ())
        simp only [resume, Prog.bind_apply, currentThread, cur, frame]
        rfl
      | futex addr => simp [Tcb.futexCall, frame] at call

end Tasks

/-! ## What a wake does to the threads -/

namespace Scheduler

variable {s : Scheduler} {i : Fin maxThreads} {t : Tcb}

theorem KeepsCalls.ids {s' : Scheduler} (h : s.KeepsCalls s') (ids : s.DistinctIds) : s'.DistinctIds := by
  intro i j t u thread_i thread_j same
  obtain ⟨t', old_i, t_id⟩ := h.old i t thread_i
  obtain ⟨u', old_j, u_id⟩ := h.old j u thread_j
  exact ids i j t' u' old_i old_j (by rw [← t_id.id_eq, ← u_id.id_eq, same])

/-- The thread after the wakes of these threads. -/
def roused (tids : List Nat) (t : Tcb) : Tcb :=
  if t.id ∈ tids ∧ t.state.asleep then t.withState .ready else t

theorem wakeThread_threads (ids : s.DistinctIds) (tid : Nat) (i : Fin maxThreads) :
    (s.wakeThread tid).threads i = (s.threads i).map (roused [tid]) := by
  have leave : ∀ u, s.threads i = some u → sleeps tid u = false → roused [tid] u = u := by
    intro u _ awake
    refine if_neg fun both => ?_
    simp only [List.mem_singleton] at both
    simp [sleeps, both] at awake
  unfold wakeThread
  cases found : (List.finRange maxThreads).find? fun i => (s.threads i).any (sleeps tid) with
  | none =>
    simp only
    cases thread : s.threads i with
    | none => rfl
    | some u =>
      have awake := List.find?_eq_none.mp found i (List.mem_finRange i)
      simp only [thread, Option.any_some, Bool.not_eq_true] at awake
      rw [Option.map_some, leave u thread awake]
  | some j =>
    have hit := List.find?_some found
    obtain ⟨v, at_j, sleeping⟩ := (Option.any_eq_true _ _).mp hit
    simp only [requeueCurrent_threads, modifyAt_threads]
    split_ifs with here
    · subst here
      rw [at_j, Option.map_some, Option.map_some]
      have both : v.id ∈ [tid] ∧ v.state.asleep := by simpa [sleeps] using sleeping
      rw [roused, if_pos both]
    · cases thread : s.threads i with
      | none => rfl
      | some u =>
        rw [Option.map_some, leave u thread]
        by_contra also
        have u_id : u.id = tid := by simp [sleeps] at also; exact also.1
        have v_id : v.id = tid := by simp [sleeps] at sleeping; exact sleeping.1
        exact here (ids i j u v thread at_j (u_id.trans v_id.symm))

theorem roused_cons (tid : Nat) (tids : List Nat) (t : Tcb) :
    roused tids (roused [tid] t) = roused (tid :: tids) t := by
  by_cases first : t.id = tid ∧ t.state.asleep = true
  · have once : roused [tid] t = t.withState .ready := if_pos (by simp [first])
    have both : roused (tid :: tids) t = t.withState .ready := if_pos (by simp [first])
    have stays : roused tids (t.withState .ready) = t.withState .ready :=
      if_neg (by simp [ThreadState.asleep])
    rw [once, both, stays]
  · have once : roused [tid] t = t := if_neg (by simpa using first)
    rw [once]
    unfold roused
    congr 1
    simp only [List.mem_cons, eq_iff_iff]
    tauto

theorem wakeAll_keeps (s : Scheduler) (tids : List Nat) : s.KeepsCalls (Tasks.wakeAll s tids) := by
  induction tids generalizing s with
  | nil => exact .refl s
  | cons tid tids ih => exact (KeepsCalls.wakeThread s tid).trans (ih _)

theorem wakeAll_threads (ids : s.DistinctIds) (tids : List Nat) (i : Fin maxThreads) :
    (Tasks.wakeAll s tids).threads i = (s.threads i).map (roused tids) := by
  induction tids generalizing s with
  | nil =>
    have idle : roused [] = id := by
      funext t
      simp [roused]
    rw [idle, Option.map_id]
    rfl
  | cons tid tids ih =>
    have first := ih ((KeepsCalls.wakeThread s tid).ids ids)
    rw [show Tasks.wakeAll s (tid :: tids) = Tasks.wakeAll (s.wakeThread tid) tids from rfl, first,
      wakeThread_threads ids, Option.map_map]
    congr 1
    funext t
    exact roused_cons tid tids t

end Scheduler

/-! ## The table holds the line -/

namespace FutexTrace

/-- The table holds the line bucket by bucket, and the line holds the threads blocked in a futex call. -/
structure Agrees (tr : FutexTrace) : Prop where
  ids : tr.tasks.sched.DistinctIds
  lists : ∀ b, ∃ path, tr.tasks.futexes.Lists b path ∧ path.map (·.2) = (tr.bucket b).map (·.1)
  inCall : ∀ x ∈ tr.line, ∃ i t, tr.tasks.sched.threads i = some t ∧ t.id = x.1 ∧
    t.futexCall = some x.2
  complete : ∀ i t addr, tr.tasks.sched.threads i = some t → t.futexCall = some addr →
    t.state = .blocked → (t.id, addr) ∈ tr.line
  once : (tr.line.map (·.1)).Nodup

namespace Agrees

variable {tr : FutexTrace} {s' : Tasks} {i : Fin maxThreads} {t t' : Tcb} {addr : Nat}

theorem aside (h : tr.Agrees) (step : tr.tasks.Aside s') : Agrees ⟨s', tr.line⟩ where
  ids := step.calls.ids h.ids
  lists b := by
    rw [step.table]
    exact h.lists b
  inCall x mem := by
    obtain ⟨i, t, thread, id_eq, call⟩ := h.inCall x mem
    obtain ⟨t', thread', same⟩ := step.calls.kept i t thread
    exact ⟨i, t', thread', same.id_eq.trans id_eq, same.call_eq.trans call⟩
  complete i t' addr thread call blocked := by
    obtain ⟨t, old, same⟩ := step.calls.old i t' thread
    have stays := h.complete i t addr old (same.call_eq ▸ call) (same.asleep (by simp [call]) blocked)
    rwa [same.id_eq]
  once := h.once

/-- A thread is in the line with the address of its call. -/
theorem call_of_mem (h : tr.Agrees) (thread : tr.tasks.sched.threads i = some t)
    (mem : (t.id, addr) ∈ tr.line) : t.futexCall = some addr := by
  obtain ⟨j, u, at_j, id_eq, call⟩ := h.inCall _ mem
  have here := h.ids i j t u thread at_j id_eq.symm
  subst here
  rw [thread] at at_j
  cases at_j
  exact call

theorem not_mem_line (h : tr.Agrees) (thread : tr.tasks.sched.threads i = some t)
    (outside : t.futexCall = none) : t.id ∉ tr.line.map (·.1) := by
  intro mem
  obtain ⟨⟨_, addr⟩, mem_line, rfl⟩ := List.mem_map.mp mem
  have call := h.call_of_mem thread mem_line
  rw [outside] at call
  cases call

theorem bucket_once (h : tr.Agrees) (b : Fin futexBuckets) : ((tr.bucket b).map (·.1)).Nodup :=
  h.once.sublist (List.filter_sublist.map _)

/-- The thread has joined the line. -/
theorem enter (h : tr.Agrees) (thread : tr.tasks.sched.threads i = some t)
    (outside : t.futexCall = none)
    (threads : s'.sched.threads = Function.update tr.tasks.sched.threads i (some t'))
    (id_eq : t'.id = t.id) (call : t'.futexCall = some addr) {e : FutexEntry} {path : FutexPath}
    (table : s'.futexes = tr.tasks.futexes.set addr e) (lists : e.Lists path)
    (order : path.map (·.2) = (tr.bucket (FutexTable.hashAddr addr)).map (·.1) ++ [t.id]) :
    Agrees ⟨s', tr.line ++ [(t.id, addr)]⟩ where
  ids := h.ids.update thread threads id_eq
  lists b := by
    by_cases here : b = FutexTable.hashAddr addr
    · subst here
      refine ⟨path, ?_, ?_⟩
      · rw [table]
        exact FutexTable.set_lists lists
      · simp [order, bucket]
    · obtain ⟨old, held, same⟩ := h.lists b
      refine ⟨old, ?_, ?_⟩
      · rw [table]
        exact FutexTable.set_lists_of_ne held here
      · simp [same, bucket, List.filter_append, Ne.symm here]
  inCall x mem := by
    rcases List.mem_append.mp mem with old | new
    · obtain ⟨j, u, at_j, u_id, u_call⟩ := h.inCall x old
      have ne : j ≠ i := by
        rintro rfl
        rw [thread] at at_j
        cases at_j
        rw [outside] at u_call
        cases u_call
      exact ⟨j, u, by rw [threads, Function.update_of_ne ne, at_j], u_id, u_call⟩
    · cases List.mem_singleton.mp new
      exact ⟨i, t', by rw [threads, Function.update_self], id_eq, call⟩
  complete j u addr' at_j u_call blocked := by
    rw [threads, Function.update_apply] at at_j
    split_ifs at at_j with here
    · cases at_j
      rw [call] at u_call
      cases u_call
      exact List.mem_append_right _ (by simp [id_eq])
    · exact List.mem_append_left _ (h.complete j u addr' at_j u_call blocked)
  once := by
    have away := h.not_mem_line thread outside
    rw [List.map_append, List.map_singleton]
    exact List.nodup_append.mpr ⟨h.once, by simp, by grind⟩

/-- The thread has left its futex call. -/
theorem leave (h : tr.Agrees) (thread : tr.tasks.sched.threads i = some t)
    (call : t.futexCall = some addr)
    (threads : s'.sched.threads = Function.update tr.tasks.sched.threads i (some t'))
    (id_eq : t'.id = t.id) (outside : t'.futexCall = none) {e : FutexEntry} {path : FutexPath}
    (table : s'.futexes = tr.tasks.futexes.set addr e) (lists : e.Lists path)
    (order : path.map (·.2) =
      ((tr.bucket (FutexTable.hashAddr addr)).map (·.1)).filter (· ≠ t.id)) :
    Agrees ⟨s', tr.line.filter fun x => x.1 ≠ t.id⟩ where
  ids := h.ids.update thread threads id_eq
  lists b := by
    have narrowed : ∀ b, (bucket ⟨s', tr.line.filter fun x => x.1 ≠ t.id⟩ b).map (·.1) =
        ((tr.bucket b).map (·.1)).filter (· ≠ t.id) := by
      intro b
      simp [bucket, List.filter_map, List.filter_filter, Bool.and_comm]
    by_cases here : b = FutexTable.hashAddr addr
    · subst here
      refine ⟨path, ?_, order.trans (narrowed _).symm⟩
      rw [table]
      exact FutexTable.set_lists lists
    · obtain ⟨old, held, same⟩ := h.lists b
      refine ⟨old, ?_, ?_⟩
      · rw [table]
        exact FutexTable.set_lists_of_ne held here
      · rw [same, narrowed, List.filter_eq_self.mpr]
        intro tid mem
        obtain ⟨x, mem_bucket, rfl⟩ := List.mem_map.mp mem
        simp only [bucket, List.mem_filter, decide_eq_true_eq] at mem_bucket
        simp only [decide_eq_true_eq]
        rintro eq
        have own : t.futexCall = some x.2 := h.call_of_mem thread (eq ▸ mem_bucket.1)
        rw [call] at own
        cases own
        exact here mem_bucket.2.symm
  inCall x mem := by
    obtain ⟨mem_line, other⟩ := List.mem_filter.mp mem
    obtain ⟨j, u, at_j, u_id, u_call⟩ := h.inCall x mem_line
    have ne : j ≠ i := by
      rintro rfl
      rw [thread] at at_j
      cases at_j
      simp [u_id] at other
    exact ⟨j, u, by rw [threads, Function.update_of_ne ne, at_j], u_id, u_call⟩
  complete j u addr' at_j u_call blocked := by
    rw [threads, Function.update_apply] at at_j
    split_ifs at at_j with here
    · cases at_j
      rw [outside] at u_call
      cases u_call
    · refine List.mem_filter.mpr ⟨h.complete j u addr' at_j u_call blocked, ?_⟩
      have ne : u.id ≠ t.id := fun eq => here (h.ids j i u t at_j thread eq)
      simpa using ne
  once := h.once.sublist (List.filter_sublist.map _)

/-- A thread with a new id. -/
theorem join (h : tr.Agrees) {thread : Tcb} (idle : thread.waiting = none)
    (fresh : ∀ i t, tr.tasks.sched.threads i = some t → t.id ≠ thread.id)
    (vacant : tr.tasks.sched.threads i = none)
    (threads : s'.sched.threads = Function.update tr.tasks.sched.threads i (some t'))
    (id_eq : t'.id = thread.id) (waiting : t'.waiting = thread.waiting)
    (table : s'.futexes = tr.tasks.futexes) : Agrees ⟨s', tr.line⟩ where
  ids j k u v at_j at_k same := by
    rw [threads, Function.update_apply] at at_j at_k
    split_ifs at at_j at_k with j_new k_new k_new
    · rw [j_new, k_new]
    · cases at_j
      exact absurd (same.symm.trans id_eq) (fresh k v at_k)
    · cases at_k
      exact absurd (same.trans id_eq) (fresh j u at_j)
    · exact h.ids j k u v at_j at_k same
  lists b := by
    rw [table]
    exact h.lists b
  inCall x mem := by
    obtain ⟨j, u, at_j, rest⟩ := h.inCall x mem
    have ne : j ≠ i := by
      rintro rfl
      rw [vacant] at at_j
      cases at_j
    exact ⟨j, u, by rw [threads, Function.update_of_ne ne, at_j], rest⟩
  complete j u addr at_j call blocked := by
    rw [threads, Function.update_apply] at at_j
    split_ifs at at_j with here
    · cases at_j
      rw [Tcb.futexCall, waiting, idle] at call
      cases call
    · exact h.complete j u addr at_j call blocked
  once := h.once

/-- Every thread stands in the line once. -/
theorem unique (h : tr.Agrees) {x y : Nat × Nat} (hx : x ∈ tr.line) (hy : y ∈ tr.line)
    (same : x.1 = y.1) : x = y := List.inj_on_of_nodup_map h.once hx hy same

/-- A whole bucket has been woken. -/
theorem clear (h : tr.Agrees) {e : FutexEntry} (lists : e.Lists []) {woken : List Nat}
    (all : woken = (tr.bucket (FutexTable.hashAddr addr)).map (·.1))
    (sched : s'.sched = Tasks.wakeAll tr.tasks.sched woken)
    (table : s'.futexes = tr.tasks.futexes.set addr e) :
    Agrees ⟨s', tr.line.filter fun x => x.1 ∉ woken⟩ := by
  have keeps := Scheduler.wakeAll_keeps tr.tasks.sched woken
  rw [← sched] at keeps
  have roused : Agrees ⟨{ s' with futexes := tr.tasks.futexes }, tr.line⟩ := h.aside ⟨rfl, keeps⟩
  have in_bucket : ∀ x ∈ tr.line, (x.1 ∈ woken ↔
      FutexTable.hashAddr x.2 = FutexTable.hashAddr addr) := by
    intro x mem
    rw [all]
    constructor
    · intro inside
      obtain ⟨y, mem_bucket, same⟩ := List.mem_map.mp inside
      obtain ⟨mem_line, hash⟩ := List.mem_filter.mp mem_bucket
      rw [h.unique mem mem_line same.symm]
      simpa using hash
    · intro hash
      exact List.mem_map_of_mem (List.mem_filter.mpr ⟨mem, by simpa using hash⟩)
  have left : ∀ b, bucket ⟨s', tr.line.filter fun x => x.1 ∉ woken⟩ b =
      if b = FutexTable.hashAddr addr then [] else tr.bucket b := by
    intro b
    simp only [bucket, List.filter_filter]
    split_ifs with here
    · refine List.filter_eq_nil_iff.mpr fun x mem both => ?_
      simp only [Bool.and_eq_true, decide_eq_true_eq] at both
      exact both.2 ((in_bucket x mem).mpr (both.1.trans here))
    · refine List.filter_congr fun x mem => ?_
      by_cases hash : FutexTable.hashAddr x.2 = b
      · have off : x.1 ∉ woken := fun inside => here (hash ▸ (in_bucket x mem).mp inside)
        simp [hash, off]
      · simp [hash]
  refine ⟨roused.ids, fun b => ?_, fun x mem => roused.inCall x (List.mem_filter.mp mem).1, ?_,
    h.once.sublist (List.filter_sublist.map _)⟩
  · rw [left]
    split_ifs with here
    · subst here
      refine ⟨[], ?_, rfl⟩
      simp only [table]
      exact FutexTable.set_lists lists
    · obtain ⟨path, held, same⟩ := h.lists b
      refine ⟨path, ?_, same⟩
      simp only [table]
      exact FutexTable.set_lists_of_ne held here
  · intro i t' addr' thread call blocked
    refine List.mem_filter.mpr ⟨roused.complete i t' addr' thread call blocked, ?_⟩
    simp only [decide_eq_true_eq]
    intro inside
    simp only [sched, Scheduler.wakeAll_threads h.ids] at thread
    obtain ⟨t, _, rfl⟩ := Option.map_eq_some_iff.mp thread
    unfold Scheduler.roused at inside blocked
    split_ifs at inside blocked with woken
    · cases blocked
    · exact woken ⟨inside, by simp [ThreadState.asleep, blocked]⟩

end Agrees

end FutexTrace

/-! ## The futex calls -/

namespace Tasks

variable {s : Tasks} {addr count : Nat} {e : FutexEntry}

theorem futexWake_some (entry : s.futexes (FutexTable.hashAddr addr) = some e) (head : e.head ≠ none) :
    futexWake addr count s = .ok (e.wakeFromEntry count).2.length
      { s with
        futexes := s.futexes.set addr (e.wakeFromEntry count).1
        sched := wakeAll s.sched (e.wakeFromEntry count).2 } := by
  simp only [futexWake, Prog.bind_apply, Prog.get_apply, entry, if_neg head, modifySched,
    Prog.modify_apply]
  rfl

theorem futexWake_nobody (head : ∀ e, s.futexes (FutexTable.hashAddr addr) = some e → e.head = none) :
    futexWake addr count s = .ok 0 s := by
  cases entry : s.futexes (FutexTable.hashAddr addr) with
  | none => simp [futexWake, Prog.bind_apply, entry]
  | some e => simp [futexWake, Prog.bind_apply, entry, head e entry]

theorem futexWake_zero : futexWake addr 0 s = .ok 0 s := by
  cases entry : s.futexes (FutexTable.hashAddr addr) with
  | none => exact futexWake_nobody fun e held => by rw [entry] at held; cases held
  | some e =>
    by_cases head : e.head = none
    · refine futexWake_nobody fun e' held => ?_
      rw [entry] at held
      cases held
      exact head
    · rw [futexWake_some entry head, FutexEntry.wake_zero]
      have same : s.futexes.set addr e = s.futexes := by
        rw [FutexTable.set, ← entry, Function.update_eq_self]
      simp only [same]
      rfl

end Tasks

namespace FutexTable

variable {table : FutexTable} {addr count : Nat} {path : FutexPath}

theorem Lists.nobody (h : table.Lists (hashAddr addr) []) :
    ∀ e, table (hashAddr addr) = some e → e.head = none := by
  intro e entry
  simp only [Lists, entry] at h
  exact FutexEntry.Lists.seg h

theorem Lists.somebody (h : table.Lists (hashAddr addr) path) (some_wait : path ≠ []) :
    ∃ e, table (hashAddr addr) = some e ∧ e.Lists path ∧ e.head ≠ none := by
  unfold Lists at h
  cases entry : table (hashAddr addr) with
  | none =>
    rw [entry] at h
    exact absurd h some_wait
  | some e =>
    rw [entry] at h
    have lists : e.Lists path := h
    refine ⟨e, rfl, lists, ?_⟩
    rw [Links.Seg.start lists.seg]
    cases path with
    | nil => exact absurd rfl some_wait
    | cons x path => simp

theorem woken_zero : table.woken addr 0 = [] := by
  unfold woken
  split <;> simp

theorem Lists.woken_nobody (h : table.Lists (hashAddr addr) []) : table.woken addr count = [] := by
  unfold woken
  cases entry : table (hashAddr addr) with
  | none => rfl
  | some e =>
    have head := h.nobody e entry
    cases limit : min count (maxFutexWaiters + 1) <;>
      simp [FutexEntry.wakeFromEntry, head, limit, FutexEntry.wakeLoop]

end FutexTable

namespace FutexTrace.Agrees

open Tasks

variable {tr : FutexTrace} {addr count : Nat}

theorem filter_line (tr : FutexTrace) : (tr.line.filter fun x => x.1 ∉ ([] : List Nat)) = tr.line := by
  simp

/-- A wake of nobody, or of a whole bucket. -/
theorem wake (h : tr.Agrees)
    (whole : count = 0 ∨ (tr.bucket (FutexTable.hashAddr addr)).length ≤ count) :
    ∃ s', futexWake addr count tr.tasks = .ok (tr.tasks.futexes.woken addr count).length s' ∧
      Agrees ⟨s', tr.line.filter fun x => x.1 ∉ tr.tasks.futexes.woken addr count⟩ ∧
      s'.sched = wakeAll tr.tasks.sched (tr.tasks.futexes.woken addr count) ∧
      (count ≠ 0 → tr.tasks.futexes.woken addr count =
        (tr.bucket (FutexTable.hashAddr addr)).map (·.1)) := by
  obtain ⟨path, held, same⟩ := h.lists (FutexTable.hashAddr addr)
  by_cases zero : count = 0
  · subst zero
    rw [FutexTable.woken_zero]
    refine ⟨tr.tasks, futexWake_zero, ?_, rfl, fun no => absurd rfl no⟩
    rw [filter_line]
    exact h
  by_cases nobody : path = []
  · subst nobody
    rw [held.woken_nobody]
    refine ⟨tr.tasks, futexWake_nobody held.nobody, ?_, rfl, fun _ => same⟩
    rw [filter_line]
    exact h
  · have enough : path.length ≤ count := by
      have len := congrArg List.length same
      simp only [List.length_map] at len
      rcases whole with no | whole
      · exact absurd no zero
      · omega
    obtain ⟨e, entry, lists, head⟩ := held.somebody nobody
    obtain ⟨e', ran, emptied⟩ := lists.wake_all nobody enough
    have woken : tr.tasks.futexes.woken addr count =
        (tr.bucket (FutexTable.hashAddr addr)).map (·.1) := by
      simp only [FutexTable.woken, entry, ran, same]
    have out := @futexWake_some tr.tasks addr count e entry head
    rw [ran, same] at out
    rw [woken]
    exact ⟨_, out, h.clear emptied rfl rfl rfl, rfl, fun _ => rfl⟩

/-! ### Waiting and returning -/

theorem onCurrent_threads {s : Scheduler} {i : Fin maxThreads} {t : Tcb} {f : Tcb → Tcb}
    (cur : s.currentIdx = some i) (thread : s.threads i = some t) :
    (s.onCurrent f).threads = Function.update s.threads i (some (f t)) := by
  simp only [Scheduler.onCurrent, cur, Scheduler.modifyAt, Scheduler.setThread, thread, Option.map_some]

theorem current_slot {s : Scheduler} {t : Tcb} (cur : s.getCurrentThread = some t) :
    ∃ i, s.currentIdx = some i ∧ s.threads i = some t := Option.bind_eq_some_iff.mp cur

/-- What an outcome leaves: the line `line` after a return and the old one after an error. -/
def Leaves {α : Type} (tr : FutexTrace) (line : List (Nat × Nat)) : Outcome Tasks Status α → Prop
  | .ok _ s => Agrees ⟨s, line⟩
  | .err _ s => Agrees ⟨s, tr.line⟩
  | .fault _ => True

theorem leaves_aside {α : Type} {m : TaskM α} (h : tr.Agrees) (step : tr.tasks.Aside (m tr.tasks).state) :
    Leaves tr tr.line (m tr.tasks) := by
  cases out : m tr.tasks <;> rw [out] at step
  · exact h.aside step
  · exact h.aside step
  · trivial

/-- The table with another entry that lists the same bucket. -/
theorem same_table (h : tr.Agrees) {e : FutexEntry} {path : FutexPath} (lists : e.Lists path)
    (order : path.map (·.2) = (tr.bucket (FutexTable.hashAddr addr)).map (·.1)) :
    Agrees ⟨{ tr.tasks with futexes := tr.tasks.futexes.set addr e }, tr.line⟩ where
  ids := h.ids
  lists b := by
    by_cases here : b = FutexTable.hashAddr addr
    · subst here
      exact ⟨path, FutexTable.set_lists lists, order⟩
    · obtain ⟨old, held, same⟩ := h.lists b
      exact ⟨old, FutexTable.set_lists_of_ne held here, same⟩
  inCall := h.inCall
  complete := h.complete
  once := h.once

/-- The running thread joins the line and gives way. -/
theorem blocks (h : tr.Agrees) {t : Tcb} (cur : tr.tasks.sched.getCurrentThread = some t)
    (idle : t.waiting = none) {e : FutexEntry} {path : FutexPath} (lists : e.Lists path)
    (order : path.map (·.2) = (tr.bucket (FutexTable.hashAddr addr)).map (·.1) ++ [t.id]) :
    Leaves tr (tr.line ++ [(t.id, addr)]) (onSched Scheduler.block { tr.tasks with
      futexes := tr.tasks.futexes.set addr e
      sched := tr.tasks.sched.onCurrent fun t => { t with waiting := some (.futex addr) } }) := by
  obtain ⟨i, slot, thread⟩ := current_slot cur
  let called := tr.tasks.sched.onCurrent fun t => { t with waiting := some (.futex addr) }
  let s₁ : Tasks := { tr.tasks with
    futexes := tr.tasks.futexes.set addr e, sched := called.setCurrentState .blocked }
  have called_threads := onCurrent_threads (f := fun t => { t with waiting := some (.futex addr) })
    slot thread
  have called_slot : called.currentIdx = some i := by
    simp only [called, Scheduler.onCurrent, slot]
    exact slot
  have threads : s₁.sched.threads = Function.update tr.tasks.sched.threads i
      (some { t with waiting := some (.futex addr), state := .blocked }) := by
    have again := onCurrent_threads (f := (·.withState .blocked)) called_slot
      (show called.threads i = some _ by rw [called_threads, Function.update_self])
    exact again.trans (by rw [called_threads, Function.update_idem]; rfl)
  have entered : Agrees ⟨s₁, tr.line ++ [(t.id, addr)]⟩ :=
    h.enter thread (by simp [Tcb.futexCall, idle]) threads rfl rfl rfl lists order
  have step : s₁.Aside (onSched Scheduler.schedule s₁).state := aside_onSched (.schedule _)
  change Leaves tr _ (onSched Scheduler.schedule s₁)
  cases out : onSched Scheduler.schedule s₁ with
  | ok _ s =>
    rw [out] at step
    exact entered.aside step
  | err e s => exact absurd out (Prog.NoErr.zoom Scheduler.schedule_noErr s₁ e s)
  | fault _ => trivial

theorem wait (h : tr.Agrees) (idle : TaskOp.Idle tr.tasks) (expected value : Nat) :
    Leaves tr ((TaskOp.futexWait addr expected value).lineAfter tr.tasks tr.line)
      (futexWait addr expected value tr.tasks) := by
  change Leaves tr (match tr.tasks.sched.getCurrentThread with
    | some t => if value = expected then tr.line ++ [(t.id, addr)] else tr.line
    | none => tr.line) _
  unfold futexWait
  by_cases differs : value = expected
  · cases cur : tr.tasks.sched.getCurrentThread with
    | none => simpa [differs, Prog.bind_apply, currentThread, cur, Leaves] using h
    | some t =>
      obtain ⟨path, held, same⟩ := h.lists (FutexTable.hashAddr addr)
      have lists := held.entry
      simp only [differs, ne_eq, not_true_eq_false, if_false, if_true, Prog.bind_apply, currentThread, cur,
        Prog.get_apply]
      by_cases room : path.length < maxFutexWaiters
      · obtain ⟨i, e, added, longer⟩ := lists.addWaiter room t.id
        simp only [added, Prog.bind_apply, Prog.modify_apply, modifyCurrent, modifySched]
        exact h.blocks cur (idle t cur) longer (by simp [same])
      · simp only [lists.addWaiter_full room t.id, Prog.bind_apply, Prog.modify_apply, Prog.throw_apply]
        exact h.same_table lists same
  · have line : (match tr.tasks.sched.getCurrentThread with
        | some t => if value = expected then tr.line ++ [(t.id, addr)] else tr.line
        | none => tr.line) = tr.line := by
      cases tr.tasks.sched.getCurrentThread <;> simp [differs]
    rw [line]
    simpa [differs, Leaves] using h

/-- A thread that is switched back to in `Futex::wait` leaves it. -/
theorem returns (h : tr.Agrees) {t : Tcb} (cur : tr.tasks.sched.getCurrentThread = some t)
    (call : t.futexCall = some addr) :
    Leaves tr (tr.line.filter fun x => x.1 ≠ t.id) (resume tr.tasks) := by
  obtain ⟨i, slot, thread⟩ := current_slot cur
  obtain ⟨path, held, same⟩ := h.lists (FutexTable.hashAddr addr)
  obtain ⟨e, path', removed, lists, order⟩ :=
    held.entry.remove (same ▸ h.bucket_once (FutexTable.hashAddr addr)) t.id
  have frame : t.waiting = some (.futex addr) := by
    unfold Tcb.futexCall at call
    split at call
    · rename_i frame
      cases call
      exact frame
    · cases call
  let s₁ : Tasks := { tr.tasks with
    sched := tr.tasks.sched.onCurrent fun t => { t with waiting := none } }
  have threads := onCurrent_threads (f := fun t => { t with waiting := none }) slot thread
  have cur₁ : s₁.sched.getCurrentThread = some { t with waiting := none } := by
    have slot₁ : s₁.sched.currentIdx = some i := by
      simp only [s₁, Scheduler.onCurrent, slot]
      exact slot
    simp only [Scheduler.getCurrentThread, slot₁, Option.bind_some]
    exact (congrFun threads i).trans (Function.update_self _ _ _)
  have ran : resume tr.tasks = .ok () { s₁ with futexes := tr.tasks.futexes.set addr e } := by
    have first : resume tr.tasks = futexRest addr s₁ := by
      simp only [resume, Prog.bind_apply, currentThread, cur, frame]
      rfl
    rw [first]
    simp only [futexRest, Prog.bind_apply, currentThread, cur₁, Prog.get_apply]
    rw [show s₁.futexes.getOrCreateEntry addr = tr.tasks.futexes.getOrCreateEntry addr from rfl, removed]
    rfl
  rw [ran]
  exact h.leave thread call threads rfl rfl rfl lists (by rw [order, same])

/-! ### Runs -/

theorem discard_state {α : Type} (m : TaskM α) (s : Tasks) :
    ((m >>= fun _ => pure ()) s).state = (m s).state := by
  rw [Prog.bind_apply]
  cases m s <;> rfl

theorem adds (h : tr.Agrees) {thread : Tcb} (idle : thread.waiting = none)
    (fresh : ∀ i t, tr.tasks.sched.threads i = some t → t.id ≠ thread.id) :
    Leaves tr tr.line (onSched (Scheduler.add thread) tr.tasks) := by
  unfold onSched Prog.zoom Scheduler.add
  cases slot : tr.tasks.sched.findEmptySlot with
  | none => trivial
  | some i =>
    simp only
    cases ready : (tr.tasks.sched.queues thread.priority).push i with
    | mk fits q =>
      cases fits with
      | false => trivial
      | true =>
        have vacant := Scheduler.findEmptySlot_eq_some slot
        have threads : (((tr.tasks.sched.setThread i (some (thread.withState .ready))).setQueue
            thread.priority q).threads) = Function.update tr.tasks.sched.threads i
              (some (thread.withState .ready)) := rfl
        exact h.join idle fresh vacant threads rfl rfl rfl

theorem leaves (h : tr.Agrees) (op : TaskOp) (possible : op.Possible tr) (whole : op.Whole tr) :
    Leaves tr (op.lineAfter tr.tasks tr.line) (op.exec tr.tasks) := by
  cases op with
  | add thread => exact h.adds possible.1 possible.2
  | run => exact h.leaves_aside (aside_onSched (.run _))
  | tick =>
    have step : Prog.Within Tasks.Aside (Prog.modify fun s => { s with ticks := s.ticks + 1 } : TaskM Unit) :=
      Prog.Within.modify fun _ => ⟨rfl, .refl _⟩
    exact h.leaves_aside ((step.bind fun _ s => aside_onSched (.schedule s.sched)) _)
  | yield => exact h.leaves_aside (aside_onSched (.schedule _))
  | channelBlock =>
    refine h.leaves_aside (aside_onSched (.block fun t cur => ?_))
    simp [Tcb.futexCall, possible t cur]
  | channelFull =>
    exact h.leaves_aside (aside_sched (.onCurrent fun t _ => .withState t (by decide)))
  | channelGiveUp => exact h.leaves_aside (aside_sched (giveUp_keeps _))
  | channelWake tid => exact h.leaves_aside (aside_sched (.wakeThread _ _))
  | portWait p =>
    refine h.leaves_aside ?_
    rw [show (TaskOp.portWait p).exec = Tasks.portWait p >>= fun _ => pure () from rfl, discard_state]
    exact aside_portWait possible
  | portWaitWithTimeout p ms =>
    refine h.leaves_aside ?_
    rw [show (TaskOp.portWaitWithTimeout p ms).exec =
      Tasks.portWaitWithTimeout p ms >>= fun _ => pure () from rfl, discard_state]
    exact aside_portWaitWithTimeout possible ms
  | portQueue p pkt => exact h.leaves_aside (aside_portQueue p pkt _)
  | futexWait addr expected value => exact h.wait possible expected value
  | futexWake addr count =>
    obtain ⟨s', ran, kept, _⟩ := h.wake whole
    have out : (TaskOp.futexWake addr count).exec tr.tasks = .ok () s' := Prog.bind_ok ran
    rw [out]
    exact kept
  | futexRequeue addr count newAddr =>
    obtain ⟨s', ran, kept, _⟩ := h.wake whole
    have out : (TaskOp.futexRequeue addr count newAddr).exec tr.tasks = .ok () s' := Prog.bind_ok ran
    rw [out]
    exact kept
  | resume =>
    change Leaves tr (match tr.tasks.sched.getCurrentThread with
      | some t => if t.futexCall = none then tr.line else tr.line.filter fun x => x.1 ≠ t.id
      | none => tr.line) (resume tr.tasks)
    cases cur : tr.tasks.sched.getCurrentThread with
    | none => exact h.leaves_aside (aside_resume fun t here => by rw [cur] at here; cases here)
    | some t =>
      cases call : t.futexCall with
      | none =>
        simp only [call, if_true]
        refine h.leaves_aside (aside_resume fun u here => ?_)
        rw [cur] at here
        cases here
        exact call
      | some addr =>
        simp only [call, reduceCtorEq, if_false]
        exact h.returns cur call
  | threadStart tid => exact h.leaves_aside (aside_onSched (.threadStart _ _))
  | die => exact h.leaves_aside (aside_onSched (.die _))

theorem boot : Agrees ⟨Tasks.boot, []⟩ where
  ids i j t u thread := by cases thread
  lists b := ⟨[], rfl, rfl⟩
  inCall x mem := by cases mem
  complete i t addr thread := by cases thread
  once := List.nodup_nil

theorem of_run (run : TaskOp.futexSystem.Run (fun tr op => op.Whole tr) ⟨Tasks.boot, []⟩ tr) :
    tr.Agrees := by
  refine run.invariant (I := Agrees) boot fun op tr tr' h whole step => ?_
  have left := h.leaves op step.enabled whole
  have ran := step.ran
  simp only [TaskOp.futexSystem, TaskOp.traced] at ran
  cases out : op.exec tr.tasks with
  | ok _ s =>
    rw [out] at ran left
    cases ran
    exact left
  | err e s =>
    rw [out] at ran left
    cases ran
    exact left
  | fault s =>
    rw [out] at ran
    cases ran

end FutexTrace.Agrees

/-! ## Exact wakes -/

/-- The wake makes ready the longest-waiting threads that are blocked on the address, as many as it may,
changes no other thread, returns their number and leaves the others in the table, in order. -/
def WakesExactly (tr : FutexTrace) (addr count : Nat) : Prop :=
  let woken := (tr.waitersOn addr).take count
  ∃ s, Tasks.futexWake addr count tr.tasks = .ok woken.length s ∧
    (∀ i, s.sched.threads i = (tr.tasks.sched.threads i).map fun t =>
      if t.id ∈ woken then t.withState .ready else t) ∧
    ∀ b, s.futexes.queued b = ((tr.bucket b).filter fun x => x.1 ∉ woken).map (·.1)

/-- Everybody in the bucket of the address is blocked on this address, and the count is enough for
them. -/
def TakesBucket (tr : FutexTrace) (addr count : Nat) : Prop :=
  (∀ x ∈ tr.bucket (FutexTable.hashAddr addr), x.2 = addr ∧ tr.asleep x.1 = true) ∧
    (tr.bucket (FutexTable.hashAddr addr)).length ≤ count

namespace FutexTrace.Agrees

open Tasks

variable {tr : FutexTrace} {addr count : Nat}

theorem asleep_iff (h : tr.Agrees) {i : Fin maxThreads} {t : Tcb}
    (thread : tr.tasks.sched.threads i = some t) : tr.asleep t.id = true ↔ t.state = .blocked := by
  simp only [asleep, List.any_eq_true, Option.any_eq_true, Bool.and_eq_true, beq_iff_eq]
  constructor
  · rintro ⟨j, _, u, at_j, same, blocked⟩
    have here := h.ids j i u t at_j thread same
    subst here
    rw [thread] at at_j
    cases at_j
    exact blocked
  · intro blocked
    exact ⟨i, List.mem_finRange i, t, thread, rfl, blocked⟩

/-- The waiters are the threads blocked in a futex call on the address. -/
theorem mem_waitersOn (h : tr.Agrees) (tid : Nat) : tid ∈ tr.waitersOn addr ↔
    ∃ i t, tr.tasks.sched.threads i = some t ∧ t.id = tid ∧ t.waiting = some (.futex addr) ∧
      t.state = .blocked := by
  have frame : ∀ t : Tcb, t.futexCall = some addr ↔ t.waiting = some (.futex addr) := by
    intro t
    unfold Tcb.futexCall
    cases t.waiting with
    | none => simp
    | some frame => cases frame <;> simp
  simp only [waitersOn, List.mem_map, List.mem_filter, Bool.and_eq_true, decide_eq_true_eq]
  constructor
  · rintro ⟨x, ⟨mem, rfl, blocked⟩, rfl⟩
    obtain ⟨i, t, thread, id_eq, call⟩ := h.inCall x mem
    rw [← id_eq] at blocked
    exact ⟨i, t, thread, id_eq, (frame t).mp call, (h.asleep_iff thread).mp blocked⟩
  · rintro ⟨i, t, thread, rfl, call, blocked⟩
    exact ⟨(t.id, addr), ⟨h.complete i t addr thread ((frame t).mpr call) blocked, rfl,
      (h.asleep_iff thread).mpr blocked⟩, rfl⟩

theorem exact_of_takes (h : tr.Agrees) (takes : count = 0 ∨ TakesBucket tr addr count) :
    WakesExactly tr addr count := by
  obtain ⟨s, ran, kept, sched, all⟩ := h.wake (takes.imp id And.right)
  have woken : tr.tasks.futexes.woken addr count = (tr.waitersOn addr).take count := by
    by_cases zero : count = 0
    · rw [zero, FutexTable.woken_zero, List.take_zero]
    · obtain ⟨mine, enough⟩ := takes.resolve_left zero
      have same : tr.waitersOn addr = (tr.bucket (FutexTable.hashAddr addr)).map (·.1) := by
        unfold waitersOn
        congr 1
        refine List.filter_congr fun x mem => ?_
        by_cases hash : FutexTable.hashAddr x.2 = FutexTable.hashAddr addr
        · have here := mine x (List.mem_filter.mpr ⟨mem, by simpa using hash⟩)
          simp [here]
        · have other : x.2 ≠ addr := fun eq => hash (by rw [eq])
          simp [hash, other]
      rw [all zero, same, List.take_of_length_le]
      simpa using enough
  rw [woken] at ran kept sched
  refine ⟨s, ran, fun i => ?_, fun b => ?_⟩
  · rw [sched, Scheduler.wakeAll_threads h.ids]
    cases thread : tr.tasks.sched.threads i with
    | none => rfl
    | some t =>
      simp only [Option.map_some, Scheduler.roused]
      by_cases mem : t.id ∈ (tr.waitersOn addr).take count
      · obtain ⟨j, u, at_j, same, _, blocked⟩ := (h.mem_waitersOn t.id).mp (List.mem_of_mem_take mem)
        have here := h.ids j i u t at_j thread same
        subst here
        rw [thread] at at_j
        cases at_j
        simp [mem, ThreadState.asleep, blocked]
      · simp [mem]
  · obtain ⟨path, held, same⟩ := kept.lists b
    rw [held.queued_eq, same, bucket, bucket, List.filter_filter, List.filter_filter]
    simp only [Bool.and_comm]

theorem takes_of_exact (h : tr.Agrees) (exactly : WakesExactly tr addr count) :
    count = 0 ∨ TakesBucket tr addr count := by
  by_cases zero : count = 0
  · exact Or.inl zero
  refine Or.inr ?_
  obtain ⟨path, held, same⟩ := h.lists (FutexTable.hashAddr addr)
  by_cases nobody : path = []
  · have empty : tr.bucket (FutexTable.hashAddr addr) = [] := by
      rw [nobody] at same
      exact List.map_eq_nil_iff.mp same.symm
    simp [TakesBucket, empty]
  obtain ⟨e, entry, lists, head⟩ := held.somebody nobody
  obtain ⟨s, ran, _, queued⟩ := exactly
  rw [futexWake_some entry head] at ran
  injection ran with _ state
  -- the wake has dropped the list of the bucket, so all of its threads must be among the woken
  have dropped : s.futexes.queued (FutexTable.hashAddr addr) = [] := by
    rw [← state]
    simp [FutexTable.queued, FutexTable.set, FutexEntry.queued,
      lists.wake_head nobody (Nat.pos_of_ne_zero zero), FutexEntry.reached, maxFutexWaiters]
  rw [queued, List.map_eq_nil_iff] at dropped
  have woken : ∀ x ∈ tr.bucket (FutexTable.hashAddr addr), x.1 ∈ (tr.waitersOn addr).take count := by
    intro x mem
    simpa using List.filter_eq_nil_iff.mp dropped x mem
  constructor
  · intro x mem
    have mine := List.mem_of_mem_take (woken x mem)
    simp only [waitersOn, List.mem_map, List.mem_filter, Bool.and_eq_true, decide_eq_true_eq] at mine
    obtain ⟨y, ⟨mem_line, on, blocked⟩, same_id⟩ := mine
    cases h.unique mem_line (List.mem_filter.mp mem).1 same_id
    exact ⟨on, blocked⟩
  · have inside : (tr.bucket (FutexTable.hashAddr addr)).map (·.1) ⊆
        (tr.waitersOn addr).take count := by
      intro tid mem
      obtain ⟨x, mem_bucket, rfl⟩ := List.mem_map.mp mem
      exact woken x mem_bucket
    have fits := ((h.bucket_once (FutexTable.hashAddr addr)).subperm inside).length_le
    rw [List.length_map, List.length_take] at fits
    omega

end FutexTrace.Agrees

/-- As long as no wake has stopped in the middle of a bucket, the line holds the blocked threads, and a
wake is exact when it wakes nobody, or when everybody in the bucket waits on its address and the count is
enough for all of them; otherwise it is not. -/
theorem futex_wake_exact_iff (tr : FutexTrace) (addr count : Nat)
    (run : TaskOp.futexSystem.Run (fun tr op => op.Whole tr) ⟨Tasks.boot, []⟩ tr) :
    (∀ tid, tid ∈ tr.waitersOn addr ↔
      ∃ i t, tr.tasks.sched.threads i = some t ∧ t.id = tid ∧ t.waiting = some (.futex addr) ∧
        t.state = .blocked) ∧
    (WakesExactly tr addr count ↔ count = 0 ∨ TakesBucket tr addr count) :=
  have agrees := FutexTrace.Agrees.of_run run
  ⟨agrees.mem_waitersOn, agrees.takes_of_exact, agrees.exact_of_takes⟩

theorem Scheduler.fresh_of_all {s : Scheduler} {tid : Nat}
    (h : ((List.finRange maxThreads).all fun i => (s.threads i).all fun t => t.id != tid) = true) :
    ∀ i t, s.threads i = some t → t.id ≠ tid := by
  intro i t thread
  have here := List.all_eq_true.mp h i (List.mem_finRange i)
  simpa [thread] using here

/-- Two of three threads wait on one word. -/
def Tasks.twoSleepers : List TaskOp :=
  [.add (Tcb.demo 1), .add (Tcb.demo 2), .add (Tcb.demo 3), .run, .futexWait 64 7 7, .futexWait 64 7 7]

theorem FutexTrace.twoSleepers_run :
    TaskOp.futexSystem.Run (fun tr op => op.Whole tr) ⟨Tasks.boot, []⟩
      (TaskOp.futexSystem.after ⟨Tasks.boot, []⟩ Tasks.twoSleepers) :=
  Stepper.Run.start.follow
    ⟨trivial, ⟨rfl, Scheduler.fresh_of_all (by decide)⟩, by decide,
      trivial, ⟨rfl, Scheduler.fresh_of_all (by decide)⟩, by decide,
      trivial, ⟨rfl, Scheduler.fresh_of_all (by decide)⟩, by decide,
      trivial, rfl, by decide, trivial, fun t cur => by cases cur; rfl, by decide,
      trivial, fun t cur => by cases cur; rfl, by decide, trivial⟩

/-- A wake of both is exact. -/
theorem futex_wake_exact_two_sleepers :
    (∀ tid, tid ∈ (TaskOp.futexSystem.after ⟨Tasks.boot, []⟩ Tasks.twoSleepers).waitersOn 64 ↔
      ∃ i t, (TaskOp.futexSystem.after ⟨Tasks.boot, []⟩ Tasks.twoSleepers).tasks.sched.threads i = some t ∧
        t.id = tid ∧ t.waiting = some (.futex 64) ∧ t.state = .blocked) ∧
    WakesExactly (TaskOp.futexSystem.after ⟨Tasks.boot, []⟩ Tasks.twoSleepers) 64 2 := by
  have both := futex_wake_exact_iff (TaskOp.futexSystem.after ⟨Tasks.boot, []⟩ Tasks.twoSleepers) 64 2
    FutexTrace.twoSleepers_run
  refine ⟨both.1, both.2.mpr (Or.inr ⟨?_, by decide⟩)⟩
  decide

/-- A wake of one of two drops the other from the table. -/
theorem partial_wake_drops_waiter :
    ¬ ∀ tr addr count, TaskOp.futexSystem.Run (fun _ _ => True) ⟨Tasks.boot, []⟩ tr →
      WakesExactly tr addr count := by
  intro claim
  have exactly := claim _ 64 1 (FutexTrace.twoSleepers_run.mono fun _ _ _ => trivial)
  have agrees := FutexTrace.Agrees.of_run FutexTrace.twoSleepers_run
  rcases agrees.takes_of_exact exactly with zero | ⟨_, fits⟩
  · cases zero
  · revert fits
    decide

end CapsuleOS
