import CapsuleOS.Ipc.PairFrame
import CapsuleOS.Ipc.Peers

/-!
# Timed reads

`Channel::read_with_timeout` looks at its deadline when its thread is switched back to, whether or not a
writer has put a message into its buffer by then. The calls of other threads are followed from the
registration on: they leave the thread waiting in its line, hand it a message, or close its endpoint.
-/
namespace CapsuleOS

open Lib

namespace ChannelOp

/-- The thread that makes the operation. -/
def caller : ChannelOp → Option Nat
  | .write cur _ _ _ => some cur
  | .read cur _ _ _ => some cur
  | .readWithTimeout cur _ _ _ _ => some cur
  | .resume cur => some cur
  | .close _ _ => none
  | .tick => none

/-- The operation puts a message into the buffer of this thread. -/
def hands (k : Kernel) (tid : Nat) : ChannelOp → Bool
  | .write _ p _ _ => (k.served .recv p).any (·.1.id == tid)
  | _ => false

end ChannelOp

theorem Thread.wake_ne_blocked (t : Thread) : t.wake.state ≠ .blocked := by
  unfold wake
  split_ifs with asleep
  · simp [setState]
  · intro blocked
    simp [blocked, ThreadState.asleep] at asleep

theorem Channel.mem_removeReceiver {c : Channel} {tid x : Nat} (ne : x ≠ tid)
    (h : x ∈ c.recvWaiters.occupants) : x ∈ (c.removeReceiver tid).recvWaiters.occupants := by
  unfold removeReceiver
  cases found : c.recvWaiters.extract? (· == tid) with
  | none => exact h
  | some r =>
    obtain ⟨b, w⟩ := r
    obtain ⟨eq, perm⟩ := Slots.extract?_perm found
    have hb : b = tid := by simpa using eq
    rcases List.mem_cons.mp (perm.mem_iff.mp h) with same | rest
    · exact absurd (same.trans hb) ne
    · exact rest

namespace Kernel

/-- What a step of others leaves of a thread that waits for a message on `p`, unless it hands it one. -/
structure Bystander (cur p : Nat) (k k' : Kernel) : Prop where
  thread : ∀ t, k.thread? cur = some t → ∃ t', k'.thread? cur = some t' ∧ t'.call = t.call ∧
    (t'.state = .blocked → t.state = .blocked)
  stays_open : k'.OpenEnd p → k.OpenEnd p
  line : k'.OpenEnd p → k.InLine .recv p cur → k'.InLine .recv p cur

variable {k k' k'' : Kernel} {cur who p q self : Nat} {t : Thread} {data : List UInt8} {hs : List Nat}

instance : Std.Refl (Bystander cur p) := ⟨fun _ => ⟨fun t ht => ⟨t, ht, rfl, id⟩, id, fun _ => id⟩⟩

theorem Bystander.trans (h : Bystander cur p k k') (h' : Bystander cur p k' k'') :
    Bystander cur p k k'' where
  thread t ht := by
    obtain ⟨t', ht', call, asleep⟩ := h.thread t ht
    obtain ⟨t'', ht'', call', asleep'⟩ := h'.thread t' ht'
    exact ⟨t'', ht'', call'.trans call, asleep ∘ asleep'⟩
  stays_open o := h.stays_open (h'.stays_open o)
  line o line := h'.line o (h.line (h'.stays_open o) line)

instance : IsTrans Kernel (Bystander cur p) := ⟨fun _ _ _ => Bystander.trans⟩

/-! ## Single updates -/

theorem Bystander.of_chans (chans : k'.chans = k.chans)
    (thread : ∀ t, k.thread? cur = some t → ∃ t', k'.thread? cur = some t' ∧ t'.call = t.call ∧
      (t'.state = .blocked → t.state = .blocked)) : Bystander cur p k k' where
  thread := thread
  stays_open o := by rwa [OpenEnd, chans] at o
  line _ line := by rwa [InLine, chans]

theorem Bystander.of_same (chans : k'.chans = k.chans) (threads : k'.thread? = k.thread?) :
    Bystander cur p k k' :=
  .of_chans chans fun t ht => ⟨t, by rw [threads, ht], rfl, id⟩

/-- Another thread changes. -/
theorem bystander_other (k : Kernel) {f : Thread → Thread} (hf : ∀ t, (f t).id = t.id)
    (ne : who ≠ cur) : Bystander cur p k (k.modifyThread who f) :=
  .of_chans rfl fun t ht => ⟨t, by rw [thread?_modifyThread _ hf, if_neg (Ne.symm ne), ht], rfl, id⟩

/-- Any thread changes, but not in its call and its state. -/
theorem bystander_modify (k : Kernel) (who : Nat) {f : Thread → Thread} (hf : ∀ t, (f t).id = t.id)
    (call : ∀ t, (f t).call = t.call) (state : ∀ t, (f t).state = t.state) :
    Bystander cur p k (k.modifyThread who f) := by
  refine .of_chans rfl fun t ht => ?_
  rw [thread?_modifyThread _ hf, ht]
  split_ifs
  · exact ⟨f t, rfl, call t, fun blocked => by rwa [state] at blocked⟩
  · exact ⟨t, rfl, rfl, id⟩

theorem bystander_wakeAll (k : Kernel) (tids : List Nat) : Bystander cur p k (k.wakeAll tids) := by
  refine .of_chans (wakeAll_chans k tids) fun t ht => ?_
  rw [thread?_wakeAll, ht]
  split_ifs
  · exact ⟨t.wake, rfl, t.wake_call, fun blocked => absurd blocked t.wake_ne_blocked⟩
  · exact ⟨t, rfl, rfl, id⟩

theorem bystander_answerWaiter (w n : Nat) (k : Kernel) : Bystander cur p k (answerWaiter w n k) :=
  (bystander_modify k w (by intro; rfl) (by intro; rfl) (by intro; rfl)).trans
    (bystander_wakeAll _ [w])

/-- An endpoint changes its lines, the thread staying where it is. -/
theorem bystander_setChan {d d' : Channel} (hd : k.chans q = some d) (state : d'.state = d.state)
    (line : q = p → cur ∈ d.recvWaiters.occupants → cur ∈ d'.recvWaiters.occupants) :
    Bystander cur p k (k.setChan q (some d')) := by
  refine ⟨fun t ht => ⟨t, ht, rfl, id⟩, fun o => ?_, fun _ here => ?_⟩
  · obtain ⟨c, hc, open_⟩ := o
    rw [setChan_chans] at hc
    split_ifs at hc with eq
    · cases hc
      exact ⟨d, eq ▸ hd, state ▸ open_⟩
    · exact ⟨c, hc, open_⟩
  · obtain ⟨c, hc, mem⟩ := here
    by_cases eq : p = q
    · subst eq
      rw [hd] at hc
      cases hc
      exact ⟨d', setChan_chans_same k p _, line rfl mem⟩
    · exact ⟨c, by rw [setChan_chans_ne k eq, hc], mem⟩

/-- An endpoint is closed or released. -/
theorem bystander_shut {c' : Option Channel} (closed : ∀ c, c' = some c → c.state = .closed) :
    Bystander cur p k (k.setChan q c') := by
  have apart : (k.setChan q c').OpenEnd p → p ≠ q := by
    rintro ⟨c, hc, open_⟩ rfl
    rw [setChan_chans_same] at hc
    exact open_ (closed c hc)
  refine ⟨fun t ht => ⟨t, ht, rfl, id⟩, fun o => ?_, fun o here => ?_⟩
  · have ne := apart o
    obtain ⟨c, hc, open_⟩ := o
    exact ⟨c, by rwa [setChan_chans_ne k ne] at hc, open_⟩
  · obtain ⟨c, hc, mem⟩ := here
    exact ⟨c, by rw [setChan_chans_ne k (apart o), hc], mem⟩

theorem bystander_closeChannel (q : Nat) : Prog.Within (Bystander cur p) (closeChannel q) := by
  have shut : ∀ q c, Prog.Within (Bystander cur p) (shutEndpoint q c) := fun q c => .modify fun k =>
    (bystander_shut fun c' eq => by cases eq; rfl).trans (bystander_wakeAll _ _)
  refine (within_deref q).bind fun c => (shut q c).bind fun _ => ?_
  cases c.peer with
  | none => exact .pure ()
  | some r => exact (within_deref r).bind fun d => shut r d

theorem bystander_handles : HandleFrame (Bystander cur p) where
  counter _ _ := .of_same rfl rfl
  table _ _ _ := .of_same rfl rfl
  mm _ _ := .of_same rfl rfl
  drop := within_drop bystander_closeChannel fun _ _ => bystander_shut fun _ eq => by cases eq

theorem bystander_setStash (k : Kernel) (who i : Nat) (o : Option (KernelObject × Nat)) :
    Bystander cur p k (setStash who i o k) :=
  bystander_modify k who (by intro; rfl) (by intro; rfl) (by intro; rfl)

theorem bystander_deliver (k : Kernel) (who i hv : Nat) : Bystander cur p k (deliver who i hv k) :=
  bystander_modify k who (by intro; rfl) (by intro; rfl) (by intro; rfl)

/-! ## The parts of the calls of others -/

theorem bystander_passHandles (w : Thread) : Prog.Within (Bystander cur p) (passHandles who w hs) :=
  bystander_handles.calls.passHandles (fun k => bystander_deliver k w.id) hs

theorem bystander_sendTo (w : Thread) : Prog.Within (Bystander cur p) (sendTo who w data hs) := by
  refine (Prog.Within.modify fun k => bystander_modify k w.id (by intro; rfl) (by intro; rfl)
    (by intro; rfl)).bind fun _ => ?_
  exact (bystander_passHandles w).bind fun _ =>
    (Prog.Within.modify (bystander_answerWaiter _ _)).bind fun _ => .pure _

theorem bystander_finishRead (n : Nat) (buf : List UInt8) :
    Prog.Within (Bystander cur p) (finishRead who n buf hs) :=
  (within_currentThread who).bind fun _ => (Prog.Within.modify fun k => bystander_modify k who
    (by intro; rfl) (by intro; rfl) (by intro; rfl)).bind fun _ => .pure _

theorem bystander_receiveFrom (w : Thread) :
    Prog.Within (Bystander cur p) (receiveFrom who w data hs) := by
  have collect : Prog.Within (Bystander cur p) (collectHandles who w.id) :=
    bystander_handles.calls.collectHandles (fun k => bystander_deliver k who)
      fun k => bystander_setStash k w.id
  exact collect.bind fun _ => (Prog.Within.modify (bystander_answerWaiter _ _)).bind fun _ =>
    bystander_finishRead _ _

theorem bystander_enqueue {side : Side} {c c' : Channel} {call : Call} (ne : who ≠ cur)
    (hc : k.chans q = some c) (push : side.push c who = some c') :
    Bystander cur p k (enqueue who q c' call k) := by
  obtain ⟨perm, same⟩ := Side.push_perm push
  refine (bystander_setChan hc (push_same push).2 fun _ mem => ?_).trans
    (bystander_other _ (by intro; rfl) ne)
  cases side with
  | send =>
    have recv : c'.recvWaiters = c.recvWaiters := same
    rwa [recv]
  | recv => exact perm.mem_iff.mpr (List.mem_cons_of_mem _ mem)

theorem bystander_waitReceiver {call : Call} (ne : who ≠ cur) :
    Prog.Within (Bystander cur p) (waitReceiver who q call) := by
  intro k
  cases hc : k.chans q with
  | none => simpa [waitReceiver, Prog.bind_apply, deref, hc] using Std.Refl.refl k
  | some c =>
    cases push : c.pushReceiver who with
    | none =>
      have stopped : Bystander cur p k (k.modifyThread who (·.setState .running)) :=
        bystander_other k (by intro; rfl) ne
      simpa [waitReceiver, Prog.bind_apply, deref, hc, push] using stopped
    | some c' =>
      have joined : Bystander cur p k (enqueue who q c' call k) :=
        bystander_enqueue ne hc (show Side.recv.push c who = some c' from push)
      simpa [waitReceiver, Prog.bind_apply, deref, hc, push] using joined

theorem bystander_waitSender (ne : who ≠ cur) :
    Prog.Within (Bystander cur p) (waitSender who q data hs) := by
  have stash : Prog.Within (Bystander cur p) (stashMessage who hs) :=
    bystander_handles.calls.stashMessage (fun k => bystander_setStash k who) hs
  have restore : ∀ tab, Prog.Within (Bystander cur p) (restoreMessage who tab) := fun tab =>
    bystander_handles.calls.restoreMessage (fun k => bystander_setStash k who) tab
  have modify : ∀ f : Thread → Thread, (∀ t, (f t).id = t.id) →
      Prog.Within (Bystander cur p) (Prog.modify (·.modifyThread who f) : KernelM Unit) := fun f hf =>
    .modify fun k => bystander_other k hf ne
  refine (modify _ (by intro; rfl)).bind fun _ => stash.bind fun tab => ?_
  intro k
  cases hc : k.chans q with
  | none => simpa [Prog.bind_apply, deref, hc] using Std.Refl.refl k
  | some c =>
    cases push : c.pushSender who with
    | none =>
      have gave : Bystander cur p k (abandonWrite who tab k).state :=
        ((restore tab).bind fun _ => (modify _ (by intro; rfl)).bind fun _ => .throw _) k
      simpa [Prog.bind_apply, deref, hc, push] using gave
    | some c' =>
      have joined : Bystander cur p k (enqueue who q c' (.write q) k) :=
        bystander_enqueue ne hc (show Side.send.push c who = some c' from push)
      simpa [Prog.bind_apply, deref, hc, push] using joined

theorem bystander_finishTimedRead {deadline : Option Nat} {n : Nat} {buf : List UInt8}
    (ne : who ≠ cur) :
    Prog.Within (Bystander cur p) (finishTimedRead who q deadline n buf hs) := by
  intro k
  by_cases late : deadline.any (k.ticks ≥ ·)
  · cases hc : k.chans q with
    | none => simpa [finishTimedRead, Prog.bind_apply, late, deref, hc] using Std.Refl.refl k
    | some c =>
      have left : Bystander cur p k
          ((k.setChan q (some (c.removeReceiver who))).modifyThread who (·.giveUp)) :=
        (bystander_setChan hc (removeReceiver_same c who).2 fun _ => c.mem_removeReceiver ne.symm).trans
          (bystander_other _ Thread.giveUp_id ne)
      simpa [finishTimedRead, Prog.bind_apply, late, deref, hc] using left
  · have rest : Bystander cur p k (finishRead who n buf hs k).state := bystander_finishRead n buf k
    simpa [finishTimedRead, Prog.bind_apply, late] using rest

theorem bystander_resume (ne : who ≠ cur) : Prog.Within (Bystander cur p) (resume who) := by
  have woken : Prog.Within (Bystander cur p) (Prog.modify (wakeUp who) : KernelM Unit) :=
    .modify fun k => bystander_other k (by intro; rfl) ne
  refine (within_currentThread who).bind fun t => woken.bind fun _ => ?_
  cases t.call with
  | none => exact .fault
  | some call =>
    cases call with
    | write _ => exact .pure _
    | read _ hs => exact bystander_finishRead _ _
    | readWithTimeout self hs deadline => exact bystander_finishTimedRead ne

/-- A read or a write of another thread, as far as it goes alone. -/
theorem Meets.bystander {side : Side} {serve : Thread → KernelM CallResult}
    {wait : KernelM CallResult} {out : Outcome Kernel Status CallResult}
    (h : Meets k side who q serve wait out) (served : ∀ w, Prog.Within (Bystander cur p) (serve w))
    (waited : Prog.Within (Bystander cur p) wait)
    (nothing : ∀ w k', side = .recv → k.served side q = some (w, k') → w.id ≠ cur) :
    Bystander cur p k out.state := by
  cases h with
  | failed e _ => exact Std.Refl.refl k
  | faulted => exact Std.Refl.refl k
  | serve hc _ _ hd pop _ _ _ _ found =>
    refine (bystander_setChan hd (pop_same pop).2 fun _ mem => ?_).trans (served _ _)
    obtain ⟨perm, same⟩ := Side.pop_perm pop
    cases side with
    | send =>
      have recv := same
      simp only [Side.other, Side.queue] at recv
      rwa [recv]
    | recv =>
      rcases List.mem_cons.mp (perm.mem_iff.mp mem) with eq | rest
      · exact absurd eq.symm (nothing _ _ rfl found)
      · exact rest
  | wait _ _ _ _ _ _ => exact waited k

end Kernel

namespace ChannelOp

open Kernel

variable {k k' : Kernel} {op : ChannelOp} {cur p : Nat} {t : Thread}

/-- A step of another thread that hands the thread nothing. -/
theorem bystander_exec (s : k.Standing) (enabled : op.Enabled k) (other : op.caller ≠ some cur)
    (nothing : op.hands k cur = false) : Bystander cur p k (op.exec k).state := by
  cases op with
  | write who q data hs =>
    obtain ⟨t, ht, _⟩ := enabled
    have ne : who ≠ cur := fun eq => other (congrArg some eq)
    have met : Meets k .recv who q (fun r => sendTo who r data hs) (waitSender who q data hs)
      (channelWrite who q data hs k) := meet_result s ht
    rw [exec, state_map]
    refine met.bystander (fun w => bystander_sendTo w) (bystander_waitSender ne) fun w k' _ found => ?_
    simpa [hands, found] using nothing
  | read who q data hs =>
    obtain ⟨t, ht, _⟩ := enabled
    have ne : who ≠ cur := fun eq => other (congrArg some eq)
    rw [exec, state_map]
    refine (meet_result s ht : Meets k .send who q _ _ (channelRead who q data hs k)).bystander
      (fun w => bystander_receiveFrom w) ?_ fun _ _ bad => by cases bad
    exact (Prog.Within.modify fun k => bystander_other k (by intro; rfl) ne).bind fun _ =>
      bystander_waitReceiver ne
  | readWithTimeout who q data hs ms =>
    obtain ⟨t, ht, _⟩ := enabled
    have ne : who ≠ cur := fun eq => other (congrArg some eq)
    rw [exec, state_map]
    refine (meet_result s ht : Meets k .send who q _ _
      (channelReadWithTimeout who q data hs ms k)).bystander (fun w => bystander_receiveFrom w) ?_
      fun _ _ bad => by cases bad
    exact (Prog.Within.modify fun k => bystander_other k (by intro; rfl) ne).bind fun _ =>
      Prog.Within.get.bind fun _ => bystander_waitReceiver ne
  | resume who =>
    have ne : who ≠ cur := fun eq => other (congrArg some eq)
    rw [exec, state_map]
    exact bystander_resume ne k
  | close tab hv =>
    rw [exec, state_map]
    exact ((bystander_handles.calls.remove tab hv).bind fun o => bystander_handles.calls.drop o.1) k
  | tick => exact .of_same rfl rfl

theorem sendTo_wakes {who : Nat} {w : Thread} {data : List UInt8} {hs : List Nat} {res : CallResult}
    (hw : k.thread? w.id = some w) (ran : sendTo who w data hs k = .ok res k') :
    ∃ t', k'.thread? w.id = some t' ∧ t'.call = w.call ∧ t'.state ≠ .blocked := by
  set k₁ := k.modifyThread w.id (·.fill (data.take (min data.length w.ipcBuf.length))) with hk₁
  have filled := modifyThread_same k (f := (·.fill (data.take (min data.length w.ipcBuf.length))))
    (by intro; rfl) hw
  obtain ⟨_, k₂, passed, last⟩ := Prog.bind_eq_ok (m := passHandles who w hs) (s := k₁) ran
  cases last
  have kept : Bystander w.id 0 k₁ (passHandles who w hs k₁).state := bystander_passHandles w k₁
  rw [passed] at kept
  obtain ⟨t₂, ht₂, call, _⟩ := kept.thread _ filled
  have woken := ({ t₂ with ipcActualLen := min data.length w.ipcBuf.length } : Thread).wake_ne_blocked
  refine ⟨_, ?_, ?_, woken⟩
  · rw [answerWaiter_thread?, if_pos rfl]
    exact congrArg (Option.map _) ht₂
  · rw [Thread.wake_call]
    exact call

/-- A write that hands the thread a message wakes it. -/
theorem handed_awake (s : k.Standing) (steps : op.Steps k k') (handed : op.hands k cur = true)
    (ht : k.thread? cur = some t) :
    ∃ t', k'.thread? cur = some t' ∧ t'.call = t.call ∧ t'.state ≠ .blocked := by
  cases op with
  | write who q data hs =>
    obtain ⟨u, hu, _⟩ := steps.enabled
    obtain ⟨⟨w, k₁⟩, found, same⟩ := Option.any_eq_true _ _ |>.mp handed
    obtain rfl : w.id = cur := by simpa using same
    have met : Meets k .recv who q (fun r => sendTo who r data hs) (waitSender who q data hs)
      (channelWrite who q data hs k) := meet_result s hu
    have ends : Returns (channelWrite who q data hs k) k' := by
      cases steps with
      | ok _ r ran =>
        obtain ⟨res, k₂, wrote, last⟩ := Prog.bind_eq_ok ran
        cases last
        exact Or.inl ⟨res, wrote⟩
      | err _ e ran =>
        rcases Prog.bind_eq_err ran with failed | ⟨_, _, _, last⟩
        · exact Or.inr ⟨e, failed⟩
        · cases last
    generalize channelWrite who q data hs k = out at met ends
    cases met with
    | failed e nobody =>
      rw [nobody] at found
      cases found
    | faulted => exact absurd ends (not_returns_fault _)
    | wait _ _ _ _ _ nobody =>
      rw [nobody] at found
      cases found
    | @serve c d d' q' w' call hc _ _ hd pop hw _ _ _ found' =>
      rw [found'] at found
      cases found
      rw [ht] at hw
      cases hw
      rcases ends with ⟨res, ran⟩ | ⟨e, ran⟩
      · exact sendTo_wakes (k := k.setChan q' (some d')) ht ran
      · exact absurd ran (sendTo_noErr (k := k.setChan q' (some d')) hu e)
  | read => cases handed
  | readWithTimeout => cases handed
  | resume => cases handed
  | close => cases handed
  | tick => cases handed

end ChannelOp

namespace Kernel

/-- The thread has registered for a timed read on `p`, and since then other threads have made steps;
the flag says whether one of them has handed it a message. -/
inductive TimedRead (cur p : Nat) : Bool → Kernel → Prop where
  | waits {k k' : Kernel} {t : Thread} {data : List UInt8} {handles : List Nat} {timeoutMs : Nat}
      (standing : k.Standing) (ht : k.thread? cur = some t) (idle : t.call = none)
      (ran : channelReadWithTimeout cur p data handles timeoutMs k = .ok .blocked k') :
      TimedRead cur p false k'
  | meanwhile {k k' : Kernel} {handed : Bool} {op : ChannelOp} (before : TimedRead cur p handed k)
      (other : op.caller ≠ some cur) (steps : op.Steps k k') :
      TimedRead cur p (handed || op.hands k cur) k'

/-- What a time-out has to mean: the thread got no message and has left the line, where the other
threads still are. -/
structure ReadsNothing (cur p : Nat) (handed : Bool) (k k' : Kernel) : Prop where
  nothing : handed = false
  left : ¬ k'.InLine .recv p cur
  others : ∀ tid, tid ≠ cur → k.InLine .recv p tid → k'.InLine .recv p tid

def Asleep (k : Kernel) (tid : Nat) : Prop := ∃ t, k.thread? tid = some t ∧ t.state = .blocked

/-- What holds of the thread until it is switched back to. -/
structure ReadWaits (cur p : Nat) (handed : Bool) (k : Kernel) : Prop where
  standing : k.Standing
  call : ∃ t hs deadline, k.thread? cur = some t ∧ t.call = some (.readWithTimeout p hs deadline)
  waiting : handed = false → k.OpenEnd p → k.InLine .recv p cur
  awake : handed = true → ¬ k.Asleep cur

variable {k k' : Kernel} {cur p : Nat} {handed : Bool} {t : Thread}

/-- A read that blocks has put its thread into the line. -/
theorem readWithTimeout_blocks {data : List UInt8} {hs : List Nat} {ms : Nat} (s : k.Standing)
    (ht : k.thread? cur = some t) (idle : t.call = none)
    (ran : channelReadWithTimeout cur p data hs ms k = .ok .blocked k') : ReadWaits cur p false k' := by
  have standing : (channelReadWithTimeout cur p data hs ms k).state.Standing :=
    channelReadWithTimeout_standing s ht idle
  rw [ran] at standing
  have met : Meets k .send cur p (fun w => receiveFrom cur w data hs) _
    (channelReadWithTimeout cur p data hs ms k) := meet_result s ht
  generalize eq : channelReadWithTimeout cur p data hs ms k = out at met
  cases met with
  | failed e nobody => rw [ran] at eq; cases eq
  | faulted => rw [ran] at eq; cases eq
  | serve hc _ _ hd pop hw _ _ _ found =>
    -- a read that is served returns
    exfalso
    rw [ran] at eq
    obtain ⟨_, k₁, _, rest⟩ := Prog.bind_eq_ok eq.symm
    obtain ⟨_, k₂, _, rest⟩ := Prog.bind_eq_ok rest
    obtain ⟨_, k₃, _, rest⟩ := Prog.bind_eq_ok rest
    obtain ⟨_, k₄, _, last⟩ := Prog.bind_eq_ok rest
    cases last
  | wait _ _ _ _ _ _ =>
    rw [ran] at eq
    have blocked := modifyThread_same k (f := (·.block data)) (by intro; rfl) ht
    obtain ⟨_, k₁, first, rest⟩ := Prog.bind_eq_ok eq.symm
    cases first
    obtain ⟨_, k₂, second, rest⟩ := Prog.bind_eq_ok rest
    cases second
    obtain ⟨c, k₃, read, last⟩ := Prog.bind_eq_ok (m := deref p) rest
    obtain ⟨_, rfl⟩ := deref_eq_ok read
    cases push : c.pushReceiver cur with
    | none =>
      rw [push] at last
      cases last
    | some c' =>
      rw [push] at last
      cases last
      have joins : Side.recv.push c cur = some c' := push
      have perm := (Side.push_perm joins).1
      have queued : ∀ call, (enqueue cur p c' call (k.modifyThread cur (·.block data))).thread? cur =
          some { t.block data with call := some call } := fun call =>
        modifyThread_same ((k.modifyThread cur (·.block data)).setChan p (some c')) (by intro; rfl)
          blocked
      refine ⟨standing, ⟨_, hs, _, queued _, rfl⟩, fun _ _ => ⟨c', ?_, ?_⟩, fun bad => by cases bad⟩
      · exact setChan_chans_same _ p _
      · exact perm.mem_iff.mpr List.mem_cons_self

theorem TimedRead.readWaits (h : TimedRead cur p handed k) : ReadWaits cur p handed k := by
  induction h with
  | waits standing ht idle ran => exact readWithTimeout_blocks standing ht idle ran
  | @meanwhile k k' handed op before other steps ih =>
    obtain ⟨t, hs, deadline, ht, call⟩ := ih.call
    have standing := steps.standing ih.standing
    cases hands : op.hands k cur with
    | false =>
      have kept := ChannelOp.bystander_exec (p := p) ih.standing steps.enabled other hands
      rw [steps.state] at kept
      obtain ⟨t', ht', call', asleep⟩ := kept.thread t ht
      rw [Bool.or_false]
      refine ⟨standing, ⟨t', hs, deadline, ht', call'.trans call⟩, fun nothing open_ => ?_,
        fun given => ?_⟩
      · exact kept.line open_ (ih.waiting nothing (kept.stays_open open_))
      · rintro ⟨u, hu, blocked⟩
        rw [ht'] at hu
        cases hu
        exact ih.awake given ⟨t, ht, asleep blocked⟩
    | true =>
      obtain ⟨t', ht', call', awake⟩ := ChannelOp.handed_awake ih.standing steps hands ht
      rw [Bool.or_true]
      refine ⟨standing, ⟨t', hs, deadline, ht', call'.trans call⟩, (fun bad => by cases bad),
        fun _ => ?_⟩
      rintro ⟨u, hu, blocked⟩
      rw [ht'] at hu
      cases hu
      exact awake blocked

theorem resume_timedOut {hs : List Nat} {deadline : Option Nat} (ht : k.thread? cur = some t)
    (call : t.call = some (.readWithTimeout p hs deadline))
    (timedOut : resume cur k = .err .timedOut k') :
    ∃ c, k.chans p = some c ∧
      k' = ((wakeUp cur k).setChan p (some (c.removeReceiver cur))).modifyThread cur (·.giveUp) := by
  rw [resume_readWithTimeout ht call] at timedOut
  by_cases late : deadline.any ((wakeUp cur k).ticks ≥ ·)
  · cases hc : (wakeUp cur k).chans p with
    | none => simp [finishTimedRead, Prog.bind_apply, late, deref, hc] at timedOut
    | some c =>
      refine ⟨c, hc, ?_⟩
      simp only [finishTimedRead, Prog.bind_apply, Prog.get_apply, late, if_true, deref, hc,
        Prog.modify_apply, Prog.throw_apply, Outcome.err.injEq] at timedOut
      exact timedOut.2.symm
  · simp [finishTimedRead, Prog.bind_apply, late, finishRead_ok (wakeUp_thread? ht)] at timedOut

/-- The end of a timed read that reports a time-out leaves the line in order, the thread apart. -/
theorem ReadWaits.leaves (h : ReadWaits cur p handed k) (timedOut : resume cur k = .err .timedOut k') :
    ¬ k'.InLine .recv p cur ∧ ∀ tid, tid ≠ cur → k.InLine .recv p tid → k'.InLine .recv p tid := by
  obtain ⟨t, hs, deadline, ht, call⟩ := h.call
  obtain ⟨c, hc, rfl⟩ := resume_timedOut ht call timedOut
  have now : (((wakeUp cur k).setChan p (some (c.removeReceiver cur))).modifyThread cur
      (·.giveUp)).chans p = some (c.removeReceiver cur) := setChan_chans_same _ p _
  constructor
  · rintro ⟨c', hc', mem⟩
    rw [now] at hc'
    cases hc'
    exact (c.removeReceiver_recv cur).2 (h.standing.once .recv p c hc) mem
  · rintro tid ne ⟨c', hc', mem⟩
    rw [hc] at hc'
    cases hc'
    exact ⟨_, now, c.mem_removeReceiver ne mem⟩

/-- A timed read that reports a time-out has consumed nothing if its thread is still asleep; and it has,
if the thread has been woken on an endpoint that is still open. -/
theorem TimedRead.nothing_iff (h : TimedRead cur p handed k)
    (timedOut : resume cur k = .err .timedOut k') :
    (k.Asleep cur → ReadsNothing cur p handed k k') ∧
      (k.OpenEnd p → ReadsNothing cur p handed k k' → k.Asleep cur) := by
  have waits := h.readWaits
  obtain ⟨left, others⟩ := waits.leaves timedOut
  constructor
  · intro asleep
    refine ⟨?_, left, others⟩
    cases handed with
    | false => rfl
    | true => exact absurd asleep (waits.awake rfl)
  · intro open_ clean
    have line := waits.waiting clean.nothing open_
    obtain ⟨t, _, ht, blocked, _⟩ := waits.standing.waiting .recv p cur line
    exact ⟨t, ht, blocked⟩

/-- So many timer interrupts later. -/
def later (k : Kernel) (n : Nat) : Kernel := { k with ticks := k.ticks + n }

theorem TimedRead.later (h : TimedRead cur p handed k) (n : Nat) :
    TimedRead cur p handed (k.later n) := by
  induction n with
  | zero => exact h
  | succ n ih =>
    have tick : ChannelOp.tick.Steps (k.later n) (k.later (n + 1)) := .ok trivial none rfl
    rw [← Bool.or_false handed]
    exact ih.meanwhile (by simp [ChannelOp.caller]) tick

end Kernel

end CapsuleOS
