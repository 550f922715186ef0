import CapsuleOS.Ipc.TimedRead
import CapsuleOS.Task.PortDelivery

/-!
# Timed waits

`Port::wait_with_timeout` looks at its deadline when its thread is switched back to, whether or not it
has been handed a packet by then, and when it gives up it takes whoever is registered off the port. As
for timed reads, the calls of other threads are followed from the registration on, on all ports.
-/
namespace CapsuleOS

open Lib

namespace PortOp

/-- The thread that makes the operation. -/
def caller : PortOp → Option (Fin maxThreads)
  | .wait cur => some cur
  | .waitWithTimeout cur _ => some cur
  | .resume cur => some cur
  | .queue _ => none
  | .tick => none

/-- The operation on the port puts a packet into the slot of this thread. -/
def hands (port : Nat) (s : Tasks) (cur : Fin maxThreads) : PortOp → Bool
  | .queue _ => (s.ports port).waiter.bind s.sched.slotOf == some cur
  | _ => false

end PortOp

namespace Tasks

/-- While another thread runs, the thread in slot `cur` stays as it is. -/
structure OthersKept (cur : Fin maxThreads) (s s' : Tasks) : Prop where
  idx : s'.sched.currentIdx = s.sched.currentIdx
  thread : s.sched.currentIdx ≠ some cur → s'.sched.threads cur = s.sched.threads cur

variable {cur who : Fin maxThreads} {s s' : Tasks} {p q : Nat} {t : Tcb}

instance : Std.Refl (OthersKept cur) := ⟨fun _ => ⟨rfl, fun _ => rfl⟩⟩

instance : IsTrans Tasks (OthersKept cur) where
  trans _ _ _ h h' :=
    ⟨h'.idx.trans h.idx, fun ne => (h'.thread (h.idx ▸ ne)).trans (h.thread ne)⟩

theorem modifyAt_other {sched : Scheduler} {i : Fin maxThreads} (f : Tcb → Tcb) (ne : cur ≠ i) :
    (sched.modifyAt i f).threads cur = sched.threads cur :=
  Function.update_of_ne ne _ _

theorem kept_currentThread : Prog.Within (OthersKept cur) currentThread := by
  intro s
  unfold currentThread
  split <;> exact Std.Refl.refl s

theorem kept_setPort (f : Tasks → Port) :
    Prog.Within (OthersKept cur) (Prog.modify fun s => s.setPort p (f s) : TaskM Unit) :=
  .modify fun _ => ⟨rfl, fun _ => rfl⟩

/-- A write to the running thread. -/
theorem kept_write {g : Scheduler → Scheduler} (f : Tcb → Tcb)
    (idle : ∀ sched, sched.currentIdx = none → g sched = sched)
    (runs : ∀ sched i, sched.currentIdx = some i → g sched = sched.modifyAt i f) :
    Prog.Within (OthersKept cur) (modifySched g) := by
  refine .modify fun s => ?_
  cases idx : s.sched.currentIdx with
  | none =>
    rw [idle _ idx]
    exact Std.Refl.refl s
  | some i =>
    rw [runs _ i idx]
    refine ⟨rfl, fun ne => modifyAt_other f fun eq => ne ?_⟩
    rw [idx, eq]

theorem kept_modifyCurrent (f : Tcb → Tcb) : Prog.Within (OthersKept cur) (modifyCurrent f) :=
  kept_write f (by intro _ idx; simp [idx]) (by intro _ _ idx; simp [idx])

theorem kept_giveUp : Prog.Within (OthersKept cur) (modifySched giveUp) :=
  kept_write (fun t => if t.state = .blocked then t.withState .ready else t)
    (by intro _ idx; simp [giveUp, idx]) (by intro _ _ idx; simp only [giveUp, idx])

theorem kept_takePacket : Prog.Within (OthersKept cur) takePacket := by
  refine kept_currentThread.bind fun t => (kept_modifyCurrent _).bind fun _ => ?_
  split
  · exact .pure _
  · exact .throw _

theorem kept_portTry (next : Fin portQueueMax) (frame : WaitFrame) :
    Prog.Within (OthersKept cur) (portTry p next frame) := by
  refine Prog.Within.get.bind fun s => ?_
  split
  · exact (Prog.Within.modify fun _ => ⟨rfl, fun _ => rfl⟩).bind fun _ => .pure _
  · refine Prog.Within.bind ?_ fun _ => .pure _
    exact kept_currentThread.bind fun _ => (kept_modifyCurrent _).bind fun _ => kept_setPort _

theorem kept_portRest : Prog.Within (OthersKept cur) portRest := by
  refine kept_currentThread.bind fun t => (kept_modifyCurrent _).bind fun _ => ?_
  split
  · exact kept_takePacket
  · refine Prog.Within.get.bind fun s => ?_
    split_ifs
    · exact (kept_setPort _).bind fun _ => kept_giveUp.bind fun _ => .throw _
    · exact kept_takePacket
  · exact .fault

/-- `Port::queue` writes to the thread that is registered. -/
theorem portQueue_threads {pkt : PortPacket} :
    (portQueue p pkt s).state.sched.threads = match (s.ports p).waiter.bind s.sched.slotOf with
      | some i => (s.sched.modifyAt i (Tcb.handed pkt)).threads
      | none => s.sched.threads := by
  simp only [portQueue, Prog.bind_apply, Prog.get_apply, Prog.modify_apply]
  cases (s.ports p).waiter.bind s.sched.slotOf with
  | some i => rfl
  | none =>
    cases Port.append { s.ports p with waiter := none } pkt with
    | some port => rfl
    | none => rfl

end Tasks

namespace PortOp

open Tasks

variable {cur : Fin maxThreads} {s s' : Tasks} {p : Nat} {op : PortOp} {t : Tcb}

theorem exec_queue (pkt : PortPacket) :
    ((queue pkt).exec p s).state = (portQueue p pkt s).state := by
  simp only [exec, Prog.bind_apply, Prog.get_apply]
  cases portQueue p pkt s with
  | ok _ s₁ => cases (s.ports p).waiter.bind s.sched.slotOf <;> rfl
  | err _ s₁ => rfl
  | fault s₁ => rfl

/-- A port operation of another thread that hands the thread nothing. -/
theorem spares (other : op.caller ≠ some cur) (nothing : op.hands p s cur = false) :
    (op.exec p s).state.sched.threads cur = s.sched.threads cur := by
  have runs : ∀ {α : Type} {m : TaskM α} {who : Fin maxThreads}, Prog.Within (OthersKept cur) m →
      who ≠ cur → (m (s.runs who)).state.sched.threads cur = s.sched.threads cur :=
    fun kept ne => (kept (s.runs _)).thread fun eq => ne (Option.some.inj eq)
  cases op with
  | wait who =>
    have told : Prog.Within (OthersKept cur) (portWaitTry p) :=
      Prog.Within.get.bind fun _ => kept_portTry _ _
    refine runs (m := portWaitTry p >>= _) (told.bind fun r => ?_) fun eq => other (congrArg some eq)
    cases r <;> exact .pure _
  | waitWithTimeout who ms =>
    have told : Prog.Within (OthersKept cur) (portWaitWithTimeoutTry p ms) :=
      Prog.Within.get.bind fun _ => kept_portTry _ _
    refine runs (m := portWaitWithTimeoutTry p ms >>= _) (told.bind fun r => ?_)
      fun eq => other (congrArg some eq)
    cases r <;> exact .pure _
  | resume who =>
    exact runs (m := portRest >>= _) (kept_portRest.bind fun _ => .pure _)
      fun eq => other (congrArg some eq)
  | queue pkt =>
    rw [exec_queue, portQueue_threads]
    cases found : (s.ports p).waiter.bind s.sched.slotOf with
    | some i =>
      have ne : i ≠ cur := by simpa [hands, found] using nothing
      exact modifyAt_other _ ne.symm
    | none => rfl
  | tick => rfl

/-- A packet that is put into the slot of the thread. -/
theorem gives (given : op.hands p s cur = true) (thread : s.sched.threads cur = some t) :
    ∃ pkt, (op.exec p s).state.sched.threads cur = some (t.handed pkt) := by
  cases op with
  | queue pkt =>
    have found : (s.ports p).waiter.bind s.sched.slotOf = some cur := by simpa [hands] using given
    refine ⟨pkt, ?_⟩
    rw [exec_queue, portQueue_threads, found]
    simp [Scheduler.modifyAt, Scheduler.setThread, thread]
  | wait => cases given
  | waitWithTimeout => cases given
  | resume => cases given
  | tick => cases given

end PortOp

namespace Tasks

/-- What the rest of the system does: it leaves the ports, and of a thread in a port wait its call and
its packet. -/
structure Elsewhere (cur : Fin maxThreads) (s s' : Tasks) : Prop where
  ports : s'.ports = s.ports
  thread : ∀ t, s.sched.threads cur = some t → ∃ t', s'.sched.threads cur = some t' ∧ t'.id = t.id ∧
    t'.waiting = t.waiting ∧ t'.portPacketSlot = t.portPacketSlot

/-- The thread has registered for a timed wait on `p`, and since then others have gone on; the flag says
whether it has been handed a packet. -/
inductive TimedWait (p : Nat) (cur : Fin maxThreads) : Bool → Tasks → Prop where
  | waits {s s' : Tasks} {timeoutMs : Nat}
      (ran : portWaitWithTimeoutTry p timeoutMs (s.runs cur) = .ok none s') : TimedWait p cur false s'
  | meanwhile {s s' : Tasks} {handed : Bool} {q : Nat} {op : PortOp} (before : TimedWait p cur handed s)
      (other : op.caller ≠ some cur) (ran : (op.exec q s).Ends s') :
      TimedWait p cur (handed || op.hands q s cur) s'
  | elsewhere {s s' : Tasks} {handed : Bool} (before : TimedWait p cur handed s)
      (apart : Elsewhere cur s s') : TimedWait p cur handed s'

/-- What a time-out has to mean: the thread got no packet and is not registered, and the one that is
registered instead stays so. -/
structure WaitsNothing (p tid : Nat) (handed : Bool) (s s' : Tasks) : Prop where
  nothing : handed = false
  left : (s'.ports p).waiter ≠ some tid
  others : ∀ tid', tid' ≠ tid → (s.ports p).waiter = some tid' → (s'.ports p).waiter = some tid'

variable {cur : Fin maxThreads} {s s' : Tasks} {p : Nat} {t : Tcb} {handed : Bool}
variable {deadline : Option Nat}

/-- What holds of the thread until it is switched back to. -/
def WaitsTimed (p : Nat) (cur : Fin maxThreads) (handed : Bool) (s : Tasks) : Prop :=
  ∃ t deadline, s.sched.threads cur = some t ∧ t.waiting = some (.portWithTimeout p deadline) ∧
    (t.portPacketSlot = none ↔ handed = false)

/-- The slot of the thread that registers is cleared. -/
theorem portTry_registers {next : Fin portQueueMax} {frame : WaitFrame}
    (ran : portTry p next frame (s.runs cur) = .ok none s') :
    ∃ t : Tcb, s'.sched.threads cur = some (t.registered frame) := by
  obtain ⟨_, _, first, rest⟩ := Prog.bind_eq_ok ran
  cases first
  cases front : ((s.runs cur).ports p).takeFront next with
  | some r =>
    rw [front] at rest
    cases rest
  | none =>
    rw [front] at rest
    obtain ⟨_, s₁, registered, last⟩ := Prog.bind_eq_ok rest
    cases last
    obtain ⟨t, s₂, running, rest⟩ := Prog.bind_eq_ok registered
    cases thread : s.sched.threads cur with
    | none =>
      have nobody : currentThread (s.runs cur) = .err .threadNotFound (s.runs cur) := by
        simp [currentThread, Scheduler.getCurrentThread, thread, runs]
      rw [nobody] at running
      cases running
    | some u =>
      rw [PortLog.Agrees.currentThread_runs thread] at running
      cases running
      cases rest
      refine ⟨t, ?_⟩
      simp [setPort, Scheduler.modifyAt, Scheduler.setThread, runs, thread]

theorem TimedWait.waitsTimed (h : TimedWait p cur handed s) : WaitsTimed p cur handed s := by
  induction h with
  | waits ran =>
    obtain ⟨t, thread⟩ := portTry_registers ran
    exact ⟨_, _, thread, rfl, iff_of_true rfl rfl⟩
  | @meanwhile s s' handed q op before other ran ih =>
    obtain ⟨t, deadline, thread, call, slot⟩ := ih
    rw [← ran.state_eq]
    cases given : op.hands q s cur with
    | false =>
      rw [Bool.or_false]
      exact ⟨t, deadline, (PortOp.spares other given).trans thread, call, slot⟩
    | true =>
      obtain ⟨pkt, now⟩ := PortOp.gives given thread
      rw [Bool.or_true]
      exact ⟨_, deadline, now, call, iff_of_false (Option.some_ne_none pkt) (by decide)⟩
  | elsewhere before apart ih =>
    obtain ⟨t, deadline, thread, call, slot⟩ := ih
    obtain ⟨t', thread', _, call', same⟩ := apart.thread t thread
    exact ⟨t', deadline, thread', call'.trans call, same ▸ slot⟩

theorem currentThread_error {e : Status} (h : currentThread s = .err e s') : e = .threadNotFound := by
  unfold currentThread at h
  split at h <;> cases h
  rfl

/-- A thread that finds no packet is told that its wait was canceled. -/
theorem takePacket_error {e : Status} (h : takePacket s = .err e s') :
    e = .threadNotFound ∨ e = .canceled := by
  obtain failed | ⟨t, s₁, _, rest⟩ := Prog.bind_eq_err h
  · exact .inl (currentThread_error failed)
  · obtain failed | ⟨_, s₂, _, last⟩ := Prog.bind_eq_err rest
    · cases failed
    · cases slot : t.portPacketSlot with
      | some pkt =>
        rw [slot] at last
        cases last
      | none =>
        rw [slot] at last
        cases last
        exact .inr rfl

/-- A timed wait that gives up leaves nobody registered. -/
theorem portTimeoutRest_timedOut (timedOut : portTimeoutRest p deadline s = .err .timedOut s') :
    (s'.ports p).waiter = none := by
  by_cases late : deadline.any (s.ticks ≥ ·)
  · have left : portTimeoutRest p deadline s = .err .timedOut
        { s.setPort p { s.ports p with waiter := none } with sched := giveUp s.sched } := by
      simp only [portTimeoutRest, Prog.bind_apply, Prog.get_apply, late, if_true]
      rfl
    rw [left] at timedOut
    cases timedOut
    simp [setPort]
  · have rest : takePacket s = .err .timedOut s' := by
      simpa [portTimeoutRest, Prog.bind_apply, late] using timedOut
    rcases takePacket_error rest with bad | bad <;> cases bad

theorem portRest_timedOut (thread : s.sched.threads cur = some t)
    (call : t.waiting = some (.portWithTimeout p deadline))
    (timedOut : portRest (s.runs cur) = .err .timedOut s') : (s'.ports p).waiter = none := by
  obtain failed | ⟨u, s₁, running, rest⟩ := Prog.bind_eq_err timedOut
  · cases currentThread_error failed
  · rw [PortLog.Agrees.currentThread_runs thread] at running
    cases running
    obtain failed | ⟨_, s₂, _, last⟩ := Prog.bind_eq_err rest
    · cases failed
    · rw [call] at last
      exact portTimeoutRest_timedOut last

/-- A timed wait that reports a time-out has consumed nothing exactly if its slot is empty and no other
thread has taken its place on the port. -/
theorem TimedWait.nothing_iff (h : TimedWait p cur handed s) (thread : s.sched.threads cur = some t)
    (timedOut : portRest (s.runs cur) = .err .timedOut s') :
    WaitsNothing p t.id handed s s' ↔
      t.portPacketSlot = none ∧ ∀ tid, (s.ports p).waiter = some tid → tid = t.id := by
  obtain ⟨u, deadline, at_cur, call, slot⟩ := h.waitsTimed
  rw [thread] at at_cur
  cases at_cur
  have gone := portRest_timedOut thread call timedOut
  constructor
  · intro clean
    refine ⟨slot.mpr clean.nothing, fun tid registered => ?_⟩
    by_contra ne
    have still := clean.others tid ne registered
    rw [gone] at still
    cases still
  · rintro ⟨empty, own⟩
    refine ⟨slot.mp empty, ?_, fun tid ne registered => absurd (own tid registered) ne⟩
    rw [gone]
    exact (Option.some_ne_none _).symm

end Tasks

/-- A timed read that reports a time-out has consumed nothing if its thread is still asleep, and only
then as long as its endpoint is open. A timed wait that reports one has consumed nothing exactly if the
slot of its thread is empty and nobody else is registered on the port. -/
theorem timeout_consumes_nothing_iff (cur self p : Nat) (slot : Fin maxThreads) (handed given : Bool)
    (k k' : Kernel) (s s' : Tasks) (t : Tcb) :
    (Kernel.TimedRead cur self handed k → Kernel.resume cur k = .err .timedOut k' →
      (k.Asleep cur → Kernel.ReadsNothing cur self handed k k') ∧
        (k.OpenEnd self → Kernel.ReadsNothing cur self handed k k' → k.Asleep cur)) ∧
    (Tasks.TimedWait p slot given s → s.sched.threads slot = some t →
      Tasks.portRest (s.runs slot) = .err .timedOut s' →
      (Tasks.WaitsNothing p t.id given s s' ↔
        t.portPacketSlot = none ∧ ∀ tid, (s.ports p).waiter = some tid → tid = t.id)) :=
  ⟨fun waits timedOut => waits.nothing_iff timedOut,
    fun waits thread timedOut => waits.nothing_iff thread timedOut⟩

namespace Kernel

/-- On the small machine the first thread reads, for a millisecond. -/
def demoTimed : Kernel := (channelReadWithTimeout 1 100 [0] [] 1 (demo (.port 9))).state

/-- The second thread answers at once. -/
def demoAnswered : Kernel := ((ChannelOp.write 2 200 [7] []).exec demoTimed).state

theorem demoTimed_computed :
    (channelReadWithTimeout 1 100 [0] [] 1 (demo (.port 9))).value? = some .blocked ∧
    (resume 1 (demoTimed.later 100)).error? = some .timedOut ∧
    ((ChannelOp.write 2 200 [7] []).exec demoTimed).value? = some (some (.wrote 1)) ∧
    (ChannelOp.write 2 200 [7] []).hands demoTimed 1 = true ∧
    (resume 1 (demoAnswered.later 100)).error? = some .timedOut := by
  decide +kernel

theorem demoTimed_read : TimedRead 1 100 false demoTimed :=
  .waits (demo_standing _) rfl rfl (Outcome.eq_ok_of_value? demoTimed_computed.1)

end Kernel

namespace Tasks

/-- So many timer interrupts later. -/
def later (s : Tasks) (n : Nat) : Tasks := { s with ticks := s.ticks + n }

theorem TimedWait.later (h : TimedWait p cur handed s) (n : Nat) : TimedWait p cur handed (s.later n) :=
  h.elsewhere ⟨rfl, fun t thread => ⟨t, thread, rfl, rfl, rfl⟩⟩

/-- A thread waits on a port for a millisecond. -/
def crewTimed : Tasks := (portWaitWithTimeoutTry 0 1 ((crew 2).runs first)).state

/-- Another thread waits on the port. -/
def crewJoined : Tasks := ((PortOp.wait second).exec 0 crewTimed).state

theorem crewTimed_computed :
    (portWaitWithTimeoutTry 0 1 ((crew 2).runs first)).value? = some none ∧
    (portRest ((crewTimed.later 100).runs first)).error? = some .timedOut ∧
    ((PortOp.wait second).exec 0 crewTimed).faulted = false ∧
    (portRest ((crewJoined.later 100).runs first)).error? = some .timedOut ∧
    ((portRest ((crewJoined.later 100).runs first)).state.ports 0).waiter = none := by
  decide +kernel

theorem crewTimed_wait : TimedWait 0 first false crewTimed :=
  .waits (Outcome.eq_ok_of_value? crewTimed_computed.1)

end Tasks

/-- A read and a wait that nobody answers. -/
theorem timeout_consumes_nothing_iff_unanswered :
    Kernel.ReadsNothing 1 100 false (Kernel.demoTimed.later 100)
        (Kernel.resume 1 (Kernel.demoTimed.later 100)).state ∧
      Tasks.WaitsNothing 0 1 false (Tasks.crewTimed.later 100)
        (Tasks.portRest ((Tasks.crewTimed.later 100).runs Tasks.first)).state := by
  obtain ⟨read, wait⟩ := timeout_consumes_nothing_iff 1 100 0 Tasks.first false false
    (Kernel.demoTimed.later 100) (Kernel.resume 1 (Kernel.demoTimed.later 100)).state
    (Tasks.crewTimed.later 100) (Tasks.portRest ((Tasks.crewTimed.later 100).runs Tasks.first)).state
    ((Tcb.demo 1).registered (.portWithTimeout 0 (some 100)))
  constructor
  · have timedOut := Outcome.eq_err_of_error? Kernel.demoTimed_computed.2.1
    exact (read (Kernel.demoTimed_read.later 100) timedOut).1 ⟨_, rfl, rfl⟩
  · have timedOut := Outcome.eq_err_of_error? Tasks.crewTimed_computed.2.1
    refine (wait (Tasks.crewTimed_wait.later 100) rfl timedOut).mpr ⟨rfl, fun tid registered => ?_⟩
    cases registered
    rfl

/-- A message that arrives before the deadline is lost with the time-out, and the time-out of a port wait
takes the thread off the port that has registered after it. -/
theorem timeout_loses_message :
    (¬ ∀ (cur p : Nat) (handed : Bool) (k k' : Kernel), Kernel.TimedRead cur p handed k →
      Kernel.resume cur k = .err .timedOut k' → Kernel.ReadsNothing cur p handed k k') ∧
    ¬ ∀ (p : Nat) (cur : Fin maxThreads) (handed : Bool) (s s' : Tasks) (t : Tcb),
      Tasks.TimedWait p cur handed s → s.sched.threads cur = some t →
      Tasks.portRest (s.runs cur) = .err .timedOut s' → Tasks.WaitsNothing p t.id handed s s' := by
  constructor
  · intro claim
    obtain ⟨_, _, wrote, hands, late⟩ := Kernel.demoTimed_computed
    have written : (ChannelOp.write 2 200 [7] []).Steps Kernel.demoTimed Kernel.demoAnswered :=
      .ok ⟨_, rfl, rfl⟩ (some (.wrote 1)) (Outcome.eq_ok_of_value? wrote)
    have handed := Kernel.demoTimed_read.meanwhile (by decide) written
    rw [hands] at handed
    have clean := claim 1 100 _ _ _ (handed.later 100) (Outcome.eq_err_of_error? late)
    cases clean.nothing
  · intro claim
    obtain ⟨_, _, ran, late, nobody⟩ := Tasks.crewTimed_computed
    have joined : ((PortOp.wait Tasks.second).exec 0 Tasks.crewTimed).Ends Tasks.crewJoined :=
      Outcome.ends_state ran
    have handed := Tasks.crewTimed_wait.meanwhile (by decide) joined
    have clean := claim 0 Tasks.first _ _ _ _ (handed.later 100) rfl (Outcome.eq_err_of_error? late)
    have still := clean.others 2 (by decide) rfl
    rw [nobody] at still
    cases still

end CapsuleOS
