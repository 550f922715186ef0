import CapsuleOS.Task.PortDelivery

/-!
# Capacity of a port

The ring of a port has sixteen cells, one of which stays empty, and `Port::queue` refuses a packet when
the other fifteen hold one, for every length that `Port::new` was given. While nothing else interferes,
the pending packets are those in the ring.
-/
namespace CapsuleOS

open Lib

/-- What the ring holds at most. -/
def Port.ringRoom : Nat := portQueueMax - 1

namespace PortOp

open Tasks

/-- With no thread waiting, a packet is refused when `len` packets are pending, and accepted
otherwise. -/
def Exact (p len : Nat) (tr : PortTrace) : Prop :=
  (tr.tasks.ports p).waiter = none → ∀ pkt,
    ((∃ s, portQueue p pkt tr.tasks = .err .tryAgain s) ↔ tr.log.queued.length = len) ∧
      (tr.log.queued.length ≠ len → ∃ s, portQueue p pkt tr.tasks = .ok () s)

/-- A timed wait finds no packet in the ring, and a packet that goes into the ring leaves room for
another one, unless the ring holds just the length asked for. -/
def Roomy (p len : Nat) (tr : PortTrace) : PortOp → Prop
  | .waitWithTimeout _ _ => tr.log.queued = []
  | .queue _ => (tr.tasks.ports p).waiter.bind tr.tasks.sched.slotOf = none →
      len = Port.ringRoom ∨ tr.log.queued.length + 1 < min len Port.ringRoom
  | _ => True

end PortOp

/-! ## The ring -/

namespace Port

/-- The ring holds the pending packets, of which there are fewer than it has room for. -/
structure Counted (len : Nat) (port : Port) (xs : List PortPacket) : Prop where
  holds : Ring.Holds port.queue port.head port.tail xs
  nobody : port.waiter ≠ none → xs = []
  few : len = ringRoom ∨ xs.length < min len ringRoom

variable {len : Nat} {port port' : Port} {xs : List PortPacket} {x pkt : PortPacket}

theorem Counted.contains (h : port.Counted len xs) : port.Contains xs := .inl h.holds

/-- A new port is empty, and `len` is not 0. -/
theorem Counted.of_new {id : Nat} (new : Port.new id len = .ok port) : port.Counted len [] := by
  unfold Port.new at new
  split_ifs at new with bad
  cases new
  refine ⟨Ring.holds_empty _, fun _ => rfl, .inr ?_⟩
  unfold ringRoom portQueueMax
  rw [List.length_nil]
  omega

/-- `Port::queue` takes the waiter off. -/
theorem Counted.cleared (h : port.Counted len xs) : Counted len { port with waiter := none } xs :=
  ⟨h.holds, fun some_ => absurd rfl some_, h.few⟩

theorem Counted.registered (h : port.Counted len xs) (nothing : xs = []) (waiter : Option Nat) :
    Counted len { port with waiter } xs := ⟨h.holds, fun _ => nothing, h.few⟩

/-- `Port::wait` takes the first packet. -/
theorem Counted.taken (h : port.Counted len (x :: xs)) : Counted len { port with
    queue := Function.update port.queue port.head none, head := advance port.head } xs where
  holds := h.holds.pop
  nobody some_ := by cases h.nobody some_
  few := h.few.imp_right fun lt => by
    rw [List.length_cons] at lt
    omega

theorem append_waiter (room : port.append pkt = some port') : port'.waiter = port.waiter := by
  unfold append at room
  split_ifs at room
  cases room
  rfl

theorem append_holds (h : Ring.Holds port.queue port.head port.tail xs)
    (room : port.append pkt = some port') :
    Ring.Holds port'.queue port'.head port'.tail (xs ++ [pkt]) := by
  unfold append at room
  split_ifs at room with full
  cases room
  exact h.push full

theorem Counted.append (h : port.Counted len xs) (idle : port.waiter = none)
    (room : port.append pkt = some port') (fits : len = ringRoom ∨ xs.length + 1 < min len ringRoom) :
    port'.Counted len (xs ++ [pkt]) where
  holds := append_holds h.holds room
  nobody some_ := absurd ((append_waiter room).trans idle) some_
  few := by rwa [List.length_append, List.length_singleton]

/-- The ring refuses a packet when it holds fifteen. -/
theorem append_eq_none (h : Ring.Holds port.queue port.head port.tail xs) :
    port.append pkt = none ↔ xs.length = ringRoom := by
  have room : ¬ advance port.tail = port.head ↔ xs.length + 1 < portQueueMax := h.push_room
  have lt := h.room
  unfold ringRoom
  unfold append
  split_ifs with full
  · exact iff_of_true rfl (by omega)
  · exact iff_of_false (by simp) (by omega)

end Port

/-! ## The calls -/

namespace Tasks

variable {p : Nat} {s : Tasks} {pkt : PortPacket}

/-- Nobody waits, and the ring takes the packet. -/
theorem portQueue_kept {port : Port} (nobody : (s.ports p).waiter.bind s.sched.slotOf = none)
    (room : { s.ports p with waiter := none }.append pkt = some port) :
    ∃ s', portQueue p pkt s = .ok () s' ∧ s'.ports p = port := by
  simp only [portQueue, Prog.bind_apply, Prog.get_apply, Prog.modify_apply, nobody, room]
  exact ⟨_, rfl, Function.update_self ..⟩

theorem portQueue_refused (nobody : (s.ports p).waiter.bind s.sched.slotOf = none)
    (full : { s.ports p with waiter := none }.append pkt = none) :
    ∃ s', portQueue p pkt s = .err .tryAgain s' ∧ s'.ports p = { s.ports p with waiter := none } := by
  simp only [portQueue, Prog.bind_apply, Prog.get_apply, Prog.modify_apply, nobody, full]
  exact ⟨_, rfl, Function.update_self ..⟩

/-- A thread waits: the ring is left alone. -/
theorem portQueue_handed {i : Fin maxThreads} (pkt : PortPacket) (waits : (s.ports p).waiter.bind s.sched.slotOf = some i) :
    ∃ s', portQueue p pkt s = .ok () s' ∧ s'.ports p = { s.ports p with waiter := none } := by
  simp only [portQueue, Prog.bind_apply, Prog.get_apply, Prog.modify_apply, waits, modifySched]
  exact ⟨_, rfl, Function.update_self ..⟩

end Tasks

namespace PortOp

open Tasks

variable {p len : Nat} {tr tr' : PortTrace}

/-- The ring decides. -/
theorem exact_iff : Exact p len tr ↔ ((tr.tasks.ports p).waiter = none → ∀ pkt,
    ((tr.tasks.ports p).append pkt = none ↔ tr.log.queued.length = len)) := by
  unfold Exact
  refine forall_congr' fun idle => forall_congr' fun pkt => ?_
  have same : { tr.tasks.ports p with waiter := none } = tr.tasks.ports p := by rw [← idle]
  have nobody : (tr.tasks.ports p).waiter.bind tr.tasks.sched.slotOf = none := by
    rw [idle]
    rfl
  cases room : (tr.tasks.ports p).append pkt with
  | some port =>
    obtain ⟨s', ran, _⟩ := portQueue_kept nobody (same.symm ▸ room)
    simp [ran]
  | none =>
    obtain ⟨s', ran, _⟩ := portQueue_refused nobody (same.symm ▸ room)
    simp [ran]

theorem Exact.of_counted (h : (tr.tasks.ports p).Counted len tr.log.queued) : Exact p len tr := by
  rw [exact_iff]
  intro _ pkt
  rw [Port.append_eq_none h.holds]
  have few := h.few
  unfold Port.ringRoom portQueueMax at *
  have lt := h.holds.room
  unfold portQueueMax at lt
  omega

/-! ## Steps -/

theorem portRegister_post (p : Nat) (frame : WaitFrame) (s : Tasks) :
    Prog.Post (portRegister p frame) s
      (fun _ s' => ∃ tid, s'.ports p = { s.ports p with waiter := some tid })
      (fun s' => s'.ports p = s.ports p) := by
  have now : Prog.Post currentThread s (fun _ s' => s' = s) (fun s' => s' = s) := by
    unfold currentThread
    refine ⟨fun t u ran => ?_, fun e u ran => ?_, fun u ran => ?_⟩ <;>
      cases cur : s.sched.getCurrentThread <;> rw [cur] at ran <;> cases ran <;> rfl
  refine .bind (now.mono (fun _ _ same => same) fun u same => same ▸ rfl) ?_
  rintro t u rfl
  refine .modify_bind (.modify ⟨t.id, Function.update_self ..⟩)

theorem portTry_takes {next : Fin portQueueMax} {frame : WaitFrame} {s : Tasks} {pkt : PortPacket}
    {port : Port} (front : (s.ports p).takeFront next = some (pkt, port)) :
    portTry p next frame s = .ok (some pkt) (s.setPort p port) := by
  simp only [portTry, Prog.bind_apply, Prog.get_apply, front]
  rfl

/-- Either wait: a packet from the ring, or a registration. -/
theorem portTry_post (p : Nat) (next : Fin portQueueMax) (frame : WaitFrame) (s : Tasks) :
    Prog.Post (portTry p next frame) s
      (fun r s' => (∃ pkt port, (s.ports p).takeFront next = some (pkt, port) ∧ r = some pkt ∧
          s'.ports p = port) ∨
        ((s.ports p).takeFront next = none ∧ r = none ∧
          ∃ tid, s'.ports p = { s.ports p with waiter := some tid }))
      (fun s' => s'.ports p = s.ports p) := by
  cases front : (s.ports p).takeFront next with
  | some taken =>
    exact .of_ok ⟨_, _, portTry_takes front, .inl ⟨taken.1, taken.2, rfl, rfl, Function.update_self ..⟩⟩
  | none =>
    unfold portTry
    refine .get_bind ?_
    rw [front]
    refine (portRegister_post p frame s).bind fun _ s' registered => ?_
    exact .pure (.inr ⟨rfl, rfl, registered⟩)

/-- A ring that holds no packet has none to take. -/
theorem takeFront_none {port : Port} {xs : List PortPacket} (h : port.Counted len xs)
    {next : Fin portQueueMax} (front : port.takeFront next = none) : xs = [] := by
  cases xs with
  | nil => rfl
  | cons x xs =>
    rw [h.contains.takeFront_cons] at front
    cases front

/-- Both waits, with what they make of the ring. -/
theorem counted_try {s : Tasks} {log : PortLog} (h : (s.ports p).Counted len log.queued)
    (next : Fin portQueueMax) (frame : WaitFrame)
    (moves : ∀ x xs, log.queued = x :: xs → Port.Counted len { s.ports p with
      queue := Function.update (s.ports p).queue (s.ports p).head none, head := next } xs) :
    Prog.Post (portTry p next frame) s
      (fun r s' => (s'.ports p).Counted len (if r.isSome then log.queued.tail else log.queued))
      (fun s' => (s'.ports p).Counted len log.queued) := by
  refine (portTry_post p next frame s).mono ?_ fun s' same => same ▸ h
  rintro _ s' (⟨pkt, port, front, rfl, rfl⟩ | ⟨front, rfl, tid, port⟩)
  · cases pending : log.queued with
    | nil =>
      rw [pending] at h
      rw [h.contains.takeFront_nil] at front
      cases front
    | cons x xs =>
      have moved := moves x xs pending
      rw [pending] at h
      rw [h.contains.takeFront_cons, Option.some.injEq, Prod.mk.injEq] at front
      rw [← front.2]
      exact moved
  · rw [port]
    exact h.registered (takeFront_none h front) _

/-- The port is as it was, but for a waiter that has given up. -/
def Leaves (p : Nat) (s s' : Tasks) : Prop :=
  s'.ports p = s.ports p ∨ s'.ports p = { s.ports p with waiter := none }

instance : Std.Refl (Leaves p) := ⟨fun _ => .inl rfl⟩

instance : IsTrans Tasks (Leaves p) where
  trans s s' s'' h h' := by
    rcases h with same | gone
    · rcases h' with same' | gone'
      · exact .inl (same'.trans same)
      · exact .inr (by rw [gone', same])
    · rcases h' with same' | gone'
      · exact .inr (same'.trans gone)
      · exact .inr (by rw [gone', gone])

theorem currentThread_leaves : Prog.Within (Leaves p) currentThread := by
  intro s
  unfold currentThread
  split <;> exact Std.Refl.refl s

theorem modifySched_leaves (f : Scheduler → Scheduler) : Prog.Within (Leaves p) (modifySched f) :=
  Prog.Within.modify fun _ => .inl rfl

theorem takePacket_leaves : Prog.Within (Leaves p) takePacket := by
  refine currentThread_leaves.bind fun t => (modifySched_leaves _).bind fun _ => ?_
  split
  · exact Prog.Within.pure _
  · exact Prog.Within.throw _

theorem portTimeoutRest_leaves (q : Nat) (deadline : Option Nat) :
    Prog.Within (Leaves p) (portTimeoutRest q deadline) := by
  refine Prog.Within.get.bind fun s => ?_
  split_ifs
  · refine (Prog.Within.modify fun s => ?_).bind fun _ =>
      (modifySched_leaves _).bind fun _ => Prog.Within.throw _
    by_cases here : p = q
    · subst here
      exact .inr (Function.update_self ..)
    · exact .inl (Function.update_of_ne here ..)
  · exact takePacket_leaves

/-- The end of a wait takes nothing from the ring. -/
theorem portRest_leaves : Prog.Within (Leaves p) portRest := by
  refine currentThread_leaves.bind fun t => (modifySched_leaves _).bind fun _ => ?_
  split
  · exact takePacket_leaves
  · exact portTimeoutRest_leaves _ _
  · exact Prog.Within.fault

theorem Leaves.counted {s s' : Tasks} {xs : List PortPacket} (kept : Leaves p s s')
    (h : (s.ports p).Counted len xs) : (s'.ports p).Counted len xs := by
  rcases kept with same | gone
  · rwa [same]
  · rw [gone]
    exact h.cleared

theorem counted_queue {s : Tasks} {log : PortLog} (h : (s.ports p).Counted len log.queued)
    {pkt : PortPacket} (roomy : (s.ports p).waiter.bind s.sched.slotOf = none →
      len = Port.ringRoom ∨ log.queued.length + 1 < min len Port.ringRoom) :
    Prog.Post (exec p (.queue pkt)) s
      (fun event s' => (s'.ports p).Counted len (log.record event).queued)
      (fun s' => (s'.ports p).Counted len log.queued) := by
  cases slot : (s.ports p).waiter.bind s.sched.slotOf with
  | some i =>
    obtain ⟨s', ran, port⟩ := portQueue_handed pkt slot
    refine .of_ok ⟨.gave i pkt, s', ?_, ?_⟩
    · simp only [exec, Prog.bind_apply, Prog.get_apply, ran, slot, Prog.pure_apply]
    · rw [port]
      exact h.cleared
  | none =>
    cases room : { s.ports p with waiter := none }.append pkt with
    | some port =>
      obtain ⟨s', ran, port⟩ := portQueue_kept slot room
      refine .of_ok ⟨.kept pkt, s', ?_, ?_⟩
      · simp only [exec, Prog.bind_apply, Prog.get_apply, ran, slot, Prog.pure_apply]
      · rw [port]
        exact h.cleared.append rfl room (roomy slot)
    | none =>
      obtain ⟨s', ran, port⟩ := portQueue_refused slot room
      refine .of_err (e := .tryAgain) (u := s') ?_ ?_
      · simp only [exec, Prog.bind_apply, Prog.get_apply, ran]
      · rw [port]
        exact h.cleared

/-- Every step that keeps to the condition keeps the count. -/
theorem counted_exec {s : Tasks} {log : PortLog} (op : PortOp) (h : (s.ports p).Counted len log.queued)
    (roomy : Roomy p len ⟨s, log⟩ op) : Prog.Post (op.exec p) s
      (fun event s' => (s'.ports p).Counted len (log.record event).queued)
      (fun s' => (s'.ports p).Counted len log.queued) := by
  cases op with
  | wait cur =>
    refine .modify_bind ?_
    refine Prog.Post.bind (.get_bind (counted_try (s := s.runs cur) h (Port.advance (s.ports p).head)
      (.port p) fun x xs pending => ?_)) fun r s' kept => ?_
    · exact (pending ▸ h).taken
    · cases r <;> exact .pure kept
  | waitWithTimeout cur ms =>
    refine .modify_bind ?_
    refine Prog.Post.bind (.get_bind (counted_try (s := s.runs cur) h (Port.advance (s.ports p).tail)
      (.portWithTimeout p (s.portDeadline ms)) fun x xs pending => ?_)) fun r s' kept => ?_
    · rw [show log.queued = [] from roomy] at pending
      cases pending
    · cases r <;> exact .pure kept
  | queue pkt => exact counted_queue h roomy
  | resume cur =>
    refine .modify_bind ?_
    refine ((Prog.Post.of_within portRest_leaves (s := s.runs cur)).mono (fun _ _ kept => kept)
      fun s' kept => Leaves.counted kept h).bind fun pkt s' kept => .pure ?_
    exact Leaves.counted kept h
  | tick => exact .modify_bind (.pure h)

/-- What a step that returns a value leads to. -/
theorem step_ok {op : PortOp} {event : PortEvent} {s : Tasks} (ran : op.exec p tr.tasks = .ok event s)
    (step : (system p).Steps op tr tr') : tr' = ⟨s, tr.log.record event⟩ := by
  have ends := step.ran
  simp only [system, traced, ran] at ends
  cases ends
  rfl

theorem counted_step (h : (tr.tasks.ports p).Counted len tr.log.queued) {op : PortOp}
    (roomy : Roomy p len tr op) (step : (system p).Steps op tr tr') :
    (tr'.tasks.ports p).Counted len tr'.log.queued := by
  have post := counted_exec op h roomy
  cases out : op.exec p tr.tasks with
  | ok event s =>
    rw [step_ok out step]
    exact post.ok _ _ out
  | err e s =>
    have ends := step.ran
    simp only [system, traced, out] at ends
    cases ends
    exact post.err _ _ out
  | fault s =>
    have ends := step.ran
    simp only [system, traced, out] at ends
    cases ends

/-- A packet that fills the ring up, or up to the length asked for: the next call does the wrong
thing. -/
theorem not_exact_queue (h : (tr.tasks.ports p).Counted len tr.log.queued) {pkt : PortPacket}
    (broken : ¬ Roomy p len tr (.queue pkt)) (step : (system p).Steps (.queue pkt) tr tr') :
    ¬ Exact p len tr' := by
  obtain ⟨nobody, tight⟩ := Classical.not_imp.mp broken
  have few := h.few
  have holds := h.cleared.holds
  cases room : { tr.tasks.ports p with waiter := none }.append pkt with
  | none =>
    rw [Port.append_eq_none holds] at room
    omega
  | some port =>
    obtain ⟨s', ran, now⟩ := portQueue_kept nobody room
    have idle : port.waiter = none := Port.append_waiter room
    have ran' : exec p (.queue pkt) tr.tasks = .ok (.kept pkt) s' := by
      simp only [exec, Prog.bind_apply, Prog.get_apply, ran, nobody, Prog.pure_apply]
    rw [step_ok ran' step, exact_iff]
    intro exact_
    have law := exact_ (by rw [now, idle]) pkt
    rw [now, Port.append_eq_none (Port.append_holds holds room)] at law
    simp only [PortLog.record, List.length_append, List.length_singleton] at law
    omega

/-- A timed wait that takes a packet leaves a ring that looks full. -/
theorem not_exact_timed (h : (tr.tasks.ports p).Counted len tr.log.queued) {cur : Fin maxThreads}
    {ms : Nat} (broken : ¬ Roomy p len tr (.waitWithTimeout cur ms))
    (step : (system p).Steps (.waitWithTimeout cur ms) tr tr') : ¬ Exact p len tr' := by
  cases pending : tr.log.queued with
  | nil => exact absurd pending broken
  | cons x xs =>
    have few := h.few
    have room := h.holds.room
    have idle : (tr.tasks.ports p).waiter = none := by
      by_contra some_
      exact broken (h.nobody some_)
    have contains := h.contains
    rw [pending] at contains
    obtain ⟨port, front, idle', jam⟩ : ∃ port : Port,
        (tr.tasks.ports p).takeFront (Port.advance (tr.tasks.ports p).tail) = some (x, port) ∧
        port.waiter = none ∧ Port.advance port.tail = port.head :=
      ⟨_, contains.takeFront_cons _, idle, rfl⟩
    have ran : portWaitWithTimeoutTry p ms (tr.tasks.runs cur) =
        .ok (some x) ((tr.tasks.runs cur).setPort p port) := portTry_takes front
    have ran' : exec p (.waitWithTimeout cur ms) tr.tasks = .ok (.took x) _ := Prog.bind_ok ran
    have now : ((tr.tasks.runs cur).setPort p port).ports p = port := Function.update_self ..
    rw [step_ok ran' step, exact_iff]
    intro exact_
    have law := exact_ (by rw [now]; exact idle') x
    rw [now] at law
    have full : port.append x = none := if_pos jam
    have count := law.mp full
    simp only [PortLog.record, pending, List.tail_cons] at count
    rw [pending, List.length_cons] at few room
    unfold Port.ringRoom portQueueMax at *
    omega

end PortOp

/-- In a run of a port that was created for `len` packets, in which each step leaves the ring roomy, a
packet is refused exactly when `len` packets are pending; and after the first step that does not, there
is a state in which this fails. -/
theorem port_exact {p id len : Nat} {s₀ : Tasks} {tr : PortTrace}
    (new : Port.new id len = .ok (s₀.ports p))
    (run : (PortOp.system p).Run (PortOp.Roomy p len) ⟨s₀, .new⟩ tr) :
    PortOp.Exact p len tr ∧ ∀ op tr', (PortOp.system p).Steps op tr tr' → ¬ PortOp.Roomy p len tr op →
      ¬ PortOp.Exact p len tr' := by
  have counted : (tr.tasks.ports p).Counted len tr.log.queued :=
    run.invariant (I := fun tr => (tr.tasks.ports p).Counted len tr.log.queued) (Port.Counted.of_new new)
      fun op tr tr' h roomy step => PortOp.counted_step h roomy step
  refine ⟨.of_counted counted, fun op tr' step broken => ?_⟩
  cases op with
  | waitWithTimeout cur ms => exact PortOp.not_exact_timed counted broken step
  | queue pkt => exact PortOp.not_exact_queue counted broken step
  | wait cur => exact absurd trivial broken
  | resume cur => exact absurd trivial broken
  | tick => exact absurd trivial broken

/-- Two packets are queued on a port for sixteen, and one is taken. -/
theorem port_exact_two : PortOp.Exact 0 portQueueMax ((PortOp.system 0).after ⟨Tasks.crew 1, .new⟩
    [.queue (.demo 1), .queue (.demo 2), .wait Tasks.first]) := by
  have new : Port.new 0 portQueueMax = .ok ((Tasks.crew 1).ports 0) := rfl
  have run : (PortOp.system 0).Run (PortOp.Roomy 0 portQueueMax) ⟨Tasks.crew 1, .new⟩
      ((PortOp.system 0).after ⟨Tasks.crew 1, .new⟩
        [.queue (.demo 1), .queue (.demo 2), .wait Tasks.first]) :=
    Stepper.Run.start.follow ⟨fun _ => .inr (by decide), trivial, by decide, fun _ => .inr (by decide),
      trivial, by decide, trivial, ⟨_, rfl, rfl⟩, by decide, trivial⟩
  exact (port_exact new run).1

/-- A port that was created for one packet. -/
def Tasks.single : Tasks := (Tasks.crew 1).setPort 0
  { id := 0, queueLen := 1, queue := fun _ => none, head := Port.start, tail := Port.start, waiter := none }

/-- With one packet pending the port accepts another one. -/
theorem port_accepts_beyond_length : ¬ ∀ (p id len : Nat) (s₀ : Tasks) (tr : PortTrace),
    Port.new id len = .ok (s₀.ports p) → (PortOp.system p).Run (fun _ _ => True) ⟨s₀, .new⟩ tr →
    PortOp.Exact p len tr := by
  intro claim
  have new : Port.new 0 1 = .ok (Tasks.single.ports 0) := rfl
  have run : (PortOp.system 0).Run (fun _ _ => True) ⟨Tasks.single, .new⟩
      ((PortOp.system 0).after ⟨Tasks.single, .new⟩ [.queue (.demo 1)]) :=
    Stepper.Run.start.follow ⟨trivial, trivial, by decide, trivial⟩
  have refused := (PortOp.exact_iff.mp (claim 0 0 1 _ _ new run) rfl (.demo 2)).mpr rfl
  cases refused

end CapsuleOS
