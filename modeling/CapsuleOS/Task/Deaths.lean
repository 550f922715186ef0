import CapsuleOS.Task.Fates
import CapsuleOS.Task.FutexCalls
import CapsuleOS.Task.TaskRuns

/-!
# Dead threads

A thread that is dead stays so until `sys_thread_start` names it or `Port::queue` finds it registered
as the waiter: these two write `Ready` without looking at the state before. No other call brings a
thread back, and `schedule` never makes a dead thread current.
-/
namespace CapsuleOS

open Lib

namespace Scheduler

/-- Id of the thread in a slot. -/
def ids (s : Scheduler) (i : Fin maxThreads) : Option Nat := (s.threads i).map (·.id)

/-- The same threads are in the same slots. -/
def SameIds (s s' : Scheduler) : Prop := s'.ids = s.ids

instance : Std.Refl SameIds := ⟨fun _ => rfl⟩

instance : IsTrans Scheduler SameIds := ⟨fun _ _ _ h h' => Eq.trans h' h⟩

variable {s s' : Scheduler}

theorem SameIds.of_keepsCalls (h : s.KeepsCalls s') : SameIds s s' := by
  funext i
  unfold ids
  cases before : s.threads i with
  | some t =>
    obtain ⟨t', thread, same⟩ := h.kept i t before
    rw [thread, Option.map_some, Option.map_some, same.id_eq]
  | none =>
    cases after : s'.threads i with
    | none => rfl
    | some t' =>
      obtain ⟨t, thread, _⟩ := h.old i t' after
      rw [before] at thread
      cases thread

theorem modifyAt_sameIds {i : Fin maxThreads} {f : Tcb → Tcb} (h : ∀ t, (f t).id = t.id) :
    SameIds s (s.modifyAt i f) := by
  funext j
  unfold ids
  rw [modifyAt_threads]
  split_ifs with here
  · subst here
    cases s.threads j <;> simp [h]
  · rfl

theorem sameIds_covers : Covers SameIds where
  schedule s := .of_keepsCalls (.schedule s)
  run s := .of_keepsCalls (.run s)
  wakeThread s tid := .of_keepsCalls (.wakeThread s tid)
  write _ _ _ _ goes := modifyAt_sameIds fun t => (goes t).id_eq

/-- A new thread takes a slot that was empty. -/
theorem add_ids {thread : Tcb} (ran : (add thread s).Ends s') :
    ∃ i, s.threads i = none ∧ s'.ids = Function.update s.ids i (some thread.id) := by
  unfold add at ran
  cases slot : s.findEmptySlot with
  | none =>
    simp only [slot] at ran
    cases ran
  | some i =>
    simp only [slot] at ran
    cases pushed : (s.queues thread.priority).push i with
    | mk ok q =>
      simp only [pushed] at ran
      cases ok with
      | false => cases ran
      | true =>
        cases ran
        refine ⟨i, findEmptySlot_eq_some slot, ?_⟩
        funext j
        unfold ids
        rw [setQueue_threads, setThread_threads, Function.update_apply]
        split_ifs <;> rfl

end Scheduler

namespace Tasks

variable {s s' : Tasks} {p : Nat} {packet : PortPacket} {i : Fin maxThreads}

/-- The waiter gets the packet in its slot and is made ready. -/
theorem portQueue_waiter (packet : PortPacket) (waits : (s.ports p).waiter.bind s.sched.slotOf = some i) :
    ∃ s', portQueue p packet s = .ok () s' ∧ s'.sched =
      s.sched.modifyAt i fun t => { t with portPacketSlot := some packet, state := .ready } := by
  simp only [portQueue, Prog.bind_apply, Prog.get_apply, Prog.modify_apply, waits, modifySched]
  exact ⟨_, rfl, rfl⟩

theorem portQueue_nobody (nobody : (s.ports p).waiter.bind s.sched.slotOf = none) :
    (portQueue p packet s).state.sched = s.sched := by
  simp only [portQueue, Prog.bind_apply, Prog.get_apply, Prog.modify_apply, nobody]
  cases Port.append { s.ports p with waiter := none } packet <;> rfl

theorem portQueue_sameIds (p : Nat) (packet : PortPacket) :
    Prog.Within (Rel Scheduler.SameIds) (portQueue p packet) := by
  intro s
  unfold Rel
  cases waits : (s.ports p).waiter.bind s.sched.slotOf with
  | some i =>
    obtain ⟨s', ran, sched⟩ := portQueue_waiter packet waits
    rw [ran, Outcome.state_ok, sched]
    exact Scheduler.modifyAt_sameIds fun _ => rfl
  | none =>
    rw [portQueue_nobody waits]
    exact Std.Refl.refl s.sched

/-- Whoever is dead in `s` is dead in `s'` and does not run. -/
def KeepsDead (s s' : Tasks) : Prop := ∀ i t, s.sched.threads i = some t → t.state = .dead →
  (∃ t', s'.sched.threads i = some t' ∧ t'.id = t.id ∧ t'.state = .dead) ∧ s'.sched.currentIdx ≠ some i

instance : Trans KeepsDead KeepsDead KeepsDead where
  trans {s s' s''} h h' i t thread dead := by
    obtain ⟨⟨u, at_i, id_eq, dead'⟩, _⟩ := h i t thread dead
    obtain ⟨⟨v, at_i', id_eq', dead''⟩, away⟩ := h' i u at_i dead'
    exact ⟨⟨v, at_i', id_eq'.trans id_eq, dead''⟩, away⟩

theorem KeepsDead.of_fates (lively : s'.sched.Lively) (ids : ∀ i t, s.sched.threads i = some t →
    s'.sched.ids i = some t.id) (fates : ∀ i pid, s.sched.fates i = some (pid, true) →
      s'.sched.fates i = some (pid, true)) : KeepsDead s s' := by
  intro i t thread dead
  have fate := fates i t.processId (by rw [Scheduler.fates_of_thread thread, dead]; rfl)
  obtain ⟨t', thread', _, dead'⟩ := Scheduler.fates_eq_some.mp fate
  have id_eq := ids i t thread
  rw [Scheduler.ids, thread', Option.map_some, Option.some.injEq] at id_eq
  refine ⟨⟨t', thread', id_eq, by simpa using dead'⟩, fun cur => ?_⟩
  exact lively.alive cur thread' (by simpa using dead')

end Tasks

/-! ## One step -/

namespace TaskOp

open Tasks

variable {s s' : Tasks} {op : TaskOp}

/-- No thread that the operation makes ready by its state alone is dead. -/
def Spares (s : Tasks) (op : TaskOp) : Prop :=
  ∀ i t, op.revives s = some i → s.sched.threads i = some t → t.state ≠ .dead

theorem exec_sameIds (old : ∀ thread, op ≠ .add thread) :
    Prog.Within (Rel Scheduler.SameIds) op.exec := by
  cases op with
  | add thread => exact absurd rfl (old thread)
  | die => exact onSched_within fun s => .of_keepsCalls (.die s)
  | portQueue p packet => exact portQueue_sameIds p packet
  | threadStart tid => exact onSched_within fun s => .of_keepsCalls (.threadStart s tid)
  | _ => exact Scheduler.sameIds_covers.exec rfl

/-- The thread in a slot stays there. -/
theorem exec_ids (ran : (op.exec s).Ends s') {i : Fin maxThreads} {t : Tcb}
    (thread : s.sched.threads i = some t) : s'.sched.ids i = some t.id := by
  have here : s.sched.ids i = some t.id := by rw [Scheduler.ids, thread, Option.map_some]
  by_cases new : ∃ fresh, op = .add fresh
  · obtain ⟨fresh, rfl⟩ := new
    obtain ⟨j, free, ids⟩ := Scheduler.add_ids (onSched_ends ran)
    have ne : i ≠ j := by
      rintro rfl
      rw [free] at thread
      cases thread
    rw [ids, Function.update_of_ne ne, here]
  · have same := exec_sameIds (fun fresh eq => new ⟨fresh, eq⟩) s
    rw [ran.state_eq] at same
    have ids : s'.sched.ids = s.sched.ids := same
    rw [ids, here]

/-- The running thread is alive after every step, and a thread that was dead is still so, if the
operation has not made it ready. -/
theorem exec_fates (lively : s.sched.Lively) (ran : (op.exec s).Ends s') :
    s'.sched.Lively ∧ ∀ i pid, s.sched.fates i = some (pid, true) → op.revives s ≠ some i →
      s'.sched.fates i = some (pid, true) := by
  have step : op.Plain = true ∨ (∃ p packet, op = .portQueue p packet) ∨ (∃ tid, op = .threadStart tid) →
      s'.sched.Lively ∧ ∀ i pid, s.sched.fates i = some (pid, true) → op.revives s ≠ some i →
        s'.sched.fates i = some (pid, true) := by
    intro kind
    obtain ⟨lively', same | ⟨j, t, revived, _, fates⟩⟩ := revives_fates kind lively ran
    · exact ⟨lively', fun i pid fate _ => by rw [same, fate]⟩
    · refine ⟨lively', fun i pid fate away => ?_⟩
      have ne : i ≠ j := fun eq => away (eq ▸ revived)
      rw [fates, Function.update_of_ne ne, fate]
  cases op with
  | add thread =>
    obtain ⟨lively', j, free, fates⟩ := Scheduler.add_fates lively (onSched_ends ran)
    refine ⟨lively', fun i pid fate _ => ?_⟩
    have ne : i ≠ j := by
      rintro rfl
      rw [free] at fate
      cases fate
    rw [fates, Function.update_of_ne ne, fate]
  | die =>
    obtain ⟨lively', ⟨_, same⟩ | ⟨j, t, cur, thread, fates⟩⟩ := Scheduler.die_fates lively (onSched_ends ran)
    · exact ⟨lively', fun i pid fate _ => by rw [same, fate]⟩
    · refine ⟨lively', fun i pid fate _ => ?_⟩
      have ne : i ≠ j := by
        rintro rfl
        obtain ⟨pid', alive⟩ := lively.current i cur
        rw [fate] at alive
        cases alive
      rw [fates, Function.update_of_ne ne, fate]
  | portQueue p packet => exact step (.inr (.inl ⟨p, packet, rfl⟩))
  | threadStart tid => exact step (.inr (.inr ⟨tid, rfl⟩))
  | _ => exact step (.inl rfl)

/-- What is made ready is not dead any more. -/
theorem exec_revived {i : Fin maxThreads} {t : Tcb} (revived : op.revives s = some i)
    (thread : s.sched.threads i = some t) :
    ∃ t', (op.exec s).state.sched.threads i = some t' ∧ t'.state = .ready := by
  cases op with
  | portQueue p packet =>
    obtain ⟨s', ran, sched⟩ := portQueue_waiter packet revived
    refine ⟨{ t with portPacketSlot := some packet, state := .ready }, ?_, rfl⟩
    rw [exec, ran, Outcome.state_ok, sched, Scheduler.modifyAt_threads, if_pos rfl, thread, Option.map_some]
  | threadStart tid =>
    have slot : s.sched.slotOf tid = some i := revived
    have ran : Scheduler.threadStart tid s.sched = .ok () (s.sched.modifyAt i (·.withState .ready)) := by
      simp only [Scheduler.threadStart, Scheduler.setThreadState, slot]
    refine ⟨t.withState .ready, ?_, rfl⟩
    rw [exec, onSched, Prog.zoom_ok ran]
    exact (Scheduler.modifyAt_threads ..).trans (by rw [if_pos rfl, thread, Option.map_some])
  | _ => cases revived

theorem keepsDead_iff (lively : s.sched.Lively) (ran : (op.exec s).Ends s') :
    KeepsDead s s' ↔ op.Spares s := by
  constructor
  · intro keeps i t revived thread dead
    obtain ⟨⟨t', thread', _, dead'⟩, _⟩ := keeps i t thread dead
    obtain ⟨u, thread'', ready⟩ := exec_revived revived thread
    rw [ran.state_eq, thread'] at thread''
    cases thread''
    rw [dead'] at ready
    cases ready
  · intro spares
    have step := exec_fates lively ran
    refine .of_fates step.1 (fun i t thread => exec_ids ran thread) fun i pid fate => ?_
    refine step.2 i pid fate fun revived => ?_
    obtain ⟨t, thread, _, dead⟩ := Scheduler.fates_eq_some.mp fate
    exact spares i t revived thread (by simpa using dead)

/-! ## Runs -/

/-- The states that a list of operations goes through. -/
def trail (s : Tasks) : List TaskOp → List Tasks
  | [] => [s]
  | op :: ops => s :: trail (op.exec s).state ops

theorem trail_cons (s : Tasks) (ops : List TaskOp) : ∃ rest, trail s ops = s :: rest := by
  cases ops with
  | nil => exact ⟨[], rfl⟩
  | cons op ops => exact ⟨trail (op.exec s).state ops, rfl⟩

theorem isChain_keepsDead_iff {ops : List TaskOp} (lively : s.sched.Lively)
    (run : Follows (fun _ _ => True) s ops) :
    (trail s ops).IsChain KeepsDead ↔ Follows Spares s ops := by
  induction ops generalizing s with
  | nil => exact iff_of_true (List.isChain_singleton s) trivial
  | cons op ops ih =>
    obtain ⟨_, enabled, returns, rest⟩ := run
    have ends := Outcome.ends_state returns
    obtain ⟨states, eq⟩ := trail_cons (op.exec s).state ops
    have tail := ih (exec_fates lively ends).1 rest
    rw [eq] at tail
    rw [trail, eq, List.isChain_cons_cons, tail, keepsDead_iff lively ends]
    exact ⟨fun h => ⟨h.1, enabled, returns, h.2⟩, fun h => ⟨h.1, h.2.2.2⟩⟩

end TaskOp

theorem Scheduler.new_lively : Scheduler.new.Lively :=
  ⟨fun _ cur => (by cases cur), fun _ => rfl⟩

/-- In a run from boot on, whoever is dead in one state is dead in all later ones and never made current
again, exactly when no step makes a dead thread ready by its state alone: `sys_thread_start` is called
for threads that are not dead, and `Port::queue` finds no dead thread registered. -/
theorem dead_stays_dead_iff (ops : List TaskOp)
    (run : TaskOp.Follows (fun _ _ => True) Tasks.boot ops) :
    (TaskOp.trail Tasks.boot ops).Pairwise Tasks.KeepsDead ↔
      TaskOp.Follows TaskOp.Spares Tasks.boot ops := by
  rw [← List.isChain_iff_pairwise]
  exact TaskOp.isChain_keepsDead_iff Scheduler.new_lively run

/-- The first of two threads dies, and the second goes on. -/
def Tasks.obituary : List TaskOp := [.add (Tcb.demo 1), .add (Tcb.demo 2), .run, .die, .yield]

theorem dead_stays_dead_iff_obituary :
    (TaskOp.trail Tasks.boot Tasks.obituary).Pairwise Tasks.KeepsDead := by
  have none_revived : ∀ s op, op ∈ Tasks.obituary → TaskOp.Spares s op := by
    intro s op mem i t revived
    fin_cases mem <;> cases revived
  refine (dead_stays_dead_iff _ ?_).mpr ?_
  · exact ⟨trivial, trivial, by decide, trivial, trivial, by decide, trivial, rfl, by decide, trivial,
      trivial, by decide, trivial, trivial, by decide, trivial⟩
  · exact ⟨none_revived _ _ (by simp [Tasks.obituary]), trivial, by decide,
      none_revived _ _ (by simp [Tasks.obituary]), trivial, by decide,
      none_revived _ _ (by simp [Tasks.obituary]), rfl, by decide,
      none_revived _ _ (by simp [Tasks.obituary]), trivial, by decide,
      none_revived _ _ (by simp [Tasks.obituary]), trivial, by decide, trivial⟩

/-- The second thread starts the first one, which has died, and blocks: the first one runs again. -/
theorem dead_thread_runs : ¬ ∀ ops, TaskOp.Follows (fun _ _ => True) Tasks.boot ops →
    (TaskOp.trail Tasks.boot ops).Pairwise Tasks.KeepsDead := by
  intro all
  have stays := all [.add (Tcb.demo 1), .add (Tcb.demo 2), .run, .die, .threadStart 1, .channelBlock]
    ⟨trivial, trivial, by decide, trivial, trivial, by decide, trivial, rfl, by decide, trivial, trivial,
      by decide, trivial, trivial, by decide, trivial, trivial, by decide, trivial⟩
  have from_death := stays.sublist (List.drop_sublist 4 _)
  have kept := (List.pairwise_cons.mp from_death).1
    (TaskOp.after Tasks.boot [.add (Tcb.demo 1), .add (Tcb.demo 2), .run, .die, .threadStart 1,
      .channelBlock]) (List.mem_cons_of_mem _ List.mem_cons_self)
  exact (kept ⟨0, by decide⟩ _ rfl (by decide)).2 (by decide)

end CapsuleOS
