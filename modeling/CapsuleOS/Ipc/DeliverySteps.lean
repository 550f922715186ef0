import CapsuleOS.Ipc.Delivery

/-!
# What one call does to a pair

A read or a write either serves the thread that has waited longest on the other side, or queues its
own thread, or fails and leaves the pair as it was. In each case a single thread is touched.
-/
namespace CapsuleOS

open Lib

namespace Kernel

section Touched

variable {a b who : Nat} {k k' k'' : Kernel}

theorem Elsewhere.symm (h : Elsewhere a b k) : Elsewhere b a k := by
  intro p c tid pb pa hc mem t ht at_
  exact h p c tid pa pb hc mem t ht fun call hcall => (at_ call hcall).symm

theorem AtPair.of_idle {t : Thread} (h : t.call = none) : AtPair a b t := by
  intro c hc
  rw [h] at hc
  cases hc

theorem AtPair.of_call {t t' : Thread} (h : AtPair a b t) (same : t'.call = t.call) :
    AtPair a b t' := by
  intro c hc
  exact h c (same ▸ hc)

theorem Touched.of_frame (h : PairFrame a b k k') (e : Elsewhere a b k)
    (o : k'.OpenEnd a ∧ k'.OpenEnd b) : Touched a b k k' who where
  elsewhere := h.elsewhere e
  views tid t _ ht at_ := h.threads e o tid t ht at_
  calls tid _ := h.calls tid

theorem Touched.trans (h : Touched a b k k' who) (h' : Touched a b k' k'' who) :
    Touched a b k k'' who where
  elsewhere := h'.elsewhere
  views tid t ne ht at_ := by
    obtain ⟨t', ht', view⟩ := h.views tid t ne ht at_
    obtain ⟨t'', ht'', view'⟩ := h'.views tid t' ne ht' (at_.of_call view.call_eq)
    exact ⟨t'', ht'', view.trans view'⟩
  calls tid ne := (h'.calls tid ne).trans (h.calls tid ne)

/-- An update of one thread and of the two endpoints. -/
theorem Touched.of_local (e : Elsewhere a b k)
    (others : ∀ tid, tid ≠ who → k'.thread? tid = k.thread? tid)
    (chans : ∀ p, p ≠ a → p ≠ b → k'.chans p = k.chans p)
    (own : ∃ t, k.thread? who = some t ∧ AtPair a b t) : Touched a b k k' who where
  elsewhere := by
    intro p c tid pa pb hc mem t' ht'
    rw [chans p pa pb] at hc
    by_cases eq : tid = who
    · obtain ⟨t, ht, at_⟩ := own
      exact absurd at_ (e p c tid pa pb hc mem t (eq ▸ ht))
    · exact e p c tid pa pb hc mem t' (others tid eq ▸ ht')
  views tid t ne ht _ := ⟨t, by rw [others tid ne, ht], .refl t⟩
  calls tid ne := by rw [others tid ne]

theorem Touched.of_modify {f : Thread → Thread} {t : Thread} (hf : ∀ t, (f t).id = t.id)
    (e : Elsewhere a b k) (ht : k.thread? who = some t) (at_ : AtPair a b t) :
    Touched a b k (k.modifyThread who f) who :=
  .of_local e (fun tid ne => by rw [thread?_modifyThread _ hf, if_neg ne]) (fun _ _ _ => rfl)
    ⟨t, ht, at_⟩

end Touched

/-! ## Serving a waiting thread -/

section Serve

variable {a b cur : Nat} {k k' : Kernel} {data : List UInt8} {hs : List Nat}

/-- The waiting thread `w` has its message passed and is awake. -/
structure Served (a b : Nat) (k k' : Kernel) (w : Thread) (n : Nat) (buf : List UInt8) : Prop where
  touched : Touched a b k k' w.id
  left : k'.chans a = k.chans a
  right : k'.chans b = k.chans b
  thread : ∃ t, k'.thread? w.id = some t ∧ t.state = .ready ∧ t.call = w.call ∧
    t.ipcActualLen = n ∧ t.ipcBuf = buf

/-- Handles move, then the waiting thread is answered. -/
theorem Served.of_answer {w w' : Thread} {n : Nat} {k₁ k₂ : Kernel}
    (hw' : k₁.thread? w.id = some w') (call : w'.call = w.call) (state : w'.state = .blocked)
    (at_ : AtPair a b w) (first : Touched a b k k₁ w.id) (chans : k₁.chans = k.chans)
    (frame : PairFrame a b k₁ k₂) (o : k₂.OpenEnd a ∧ k₂.OpenEnd b) :
    Served a b k (answerWaiter w.id n k₂) w n w'.ipcBuf := by
  have second : Touched a b k₁ k₂ w.id := .of_frame frame first.elsewhere o
  obtain ⟨w'', hw'', view⟩ := frame.threads first.elsewhere o w.id w' hw' (at_.of_call call)
  have third : Touched a b k₂ (answerWaiter w.id n k₂) w.id := by
    refine .of_local second.elsewhere (fun tid ne => ?_) (fun p _ _ => ?_) ⟨w'', hw'', ?_⟩
    · rw [answerWaiter_thread?, if_neg ne]
    · rw [answerWaiter_chans]
    · exact at_.of_call (view.call_eq.trans call)
  refine ⟨(first.trans second).trans third, ?_, ?_, ?_⟩
  · rw [answerWaiter_chans, frame.left o, chans]
  · rw [answerWaiter_chans, frame.right o, chans]
  · rw [answerWaiter_thread?, if_pos rfl, hw'']
    refine ⟨_, rfl, ?_⟩
    have asleep : ({ w'' with ipcActualLen := n } : Thread).state.asleep = true := by
      simp [view.state_eq, state, ThreadState.asleep]
    simp only [Thread.wake, asleep, if_true, Thread.setState]
    exact ⟨trivial, view.call_eq.trans call, trivial, view.buf_eq⟩

theorem sendTo_serves {r : Thread} (e : Elsewhere a b k)
    (hr : k.thread? r.id = some r) (state : r.state = .blocked) (at_ : AtPair a b r)
    {res : CallResult} (ran : sendTo cur r data hs k = .ok res k')
    (o : k'.OpenEnd a ∧ k'.OpenEnd b) :
    res = .wrote (min data.length r.ipcBuf.length) ∧
      Served a b k k' r (min data.length r.ipcBuf.length)
        (splice r.ipcBuf 0 (data.take (min data.length r.ipcBuf.length))) := by
  set k₁ := k.modifyThread r.id (·.fill (data.take (min data.length r.ipcBuf.length)))
  have frame : PairFrame a b k₁ (passHandles cur r hs k₁).state :=
    pairFrame_handles.calls.passHandles (fun k i hv => pairFrame_deliver k _ i hv) hs k₁
  obtain ⟨_, k₂, ran₂, last⟩ := Prog.bind_eq_ok (m := passHandles cur r hs) (s := k₁) ran
  rw [ran₂] at frame
  simp only [Prog.bind_apply, Prog.modify_apply, Prog.pure_apply] at last
  cases last
  refine ⟨rfl, Served.of_answer (modifyThread_same _ (by intro; rfl) hr) rfl state at_
    (.of_modify (by intro; rfl) e hr at_) rfl frame ?_⟩
  simpa [OpenEnd] using o

/-- A read ends by emptying the mailbox, which no one else sees. -/
theorem pairFrame_mailbox (k : Kernel) (tid : Nat) (box : List (Option Nat)) :
    PairFrame a b k (k.modifyThread tid fun t => { t with ipcTransferHandles := box }) := by
  have found := thread?_modifyThread k (f := fun t => { t with ipcTransferHandles := box })
    (by intro; rfl) tid
  refine .of_view rfl (fun tid' t ht => ?_) fun tid' ht => ?_
  · rw [found, ht]
    split_ifs
    · exact ⟨_, rfl, rfl, rfl, rfl, rfl, rfl⟩
    · exact ⟨t, rfl, .refl t⟩
  · rw [found, ht]
    simp

theorem Served.then_frame {w : Thread} {n : Nat} {buf : List UInt8} {k'' : Kernel}
    (h : Served a b k k' w n buf) (at_ : AtPair a b w) (frame : PairFrame a b k' k'')
    (o : k''.OpenEnd a ∧ k''.OpenEnd b) : Served a b k k'' w n buf where
  touched := h.touched.trans (.of_frame frame h.touched.elsewhere o)
  left := (frame.left o).trans h.left
  right := (frame.right o).trans h.right
  thread := by
    obtain ⟨t, ht, state, call, len, buf_eq⟩ := h.thread
    obtain ⟨t', ht', view⟩ := frame.threads h.touched.elsewhere o _ t ht (at_.of_call call)
    exact ⟨t', ht', view.state_eq.trans state, view.call_eq.trans call, view.len_eq.trans len,
      view.buf_eq.trans buf_eq⟩

theorem receiveFrom_outcome {w t : Thread} (e : Elsewhere a b k) (ht : k.thread? cur = some t)
    (hw : k.thread? w.id = some w) (state : w.state = .blocked) (at_ : AtPair a b w)
    (data : List UInt8) (hs : List Nat) :
    (∀ e k', receiveFrom cur w data hs k ≠ .err e k') ∧
    ∀ res k', receiveFrom cur w data hs k = .ok res k' → k'.OpenEnd a ∧ k'.OpenEnd b →
      res.answer = some (min w.ipcBuf.length data.length,
        splice data 0 (w.ipcBuf.take (min w.ipcBuf.length data.length))) ∧
      Served a b k k' w (min w.ipcBuf.length data.length) w.ipcBuf := by
  set n := min w.ipcBuf.length data.length
  have frame : PairFrame a b k (collectHandles cur w.id k).state :=
    pairFrame_handles.calls.collectHandles (fun k i hv => pairFrame_deliver k _ i hv)
      (fun k i o => pairFrame_setStash k _ i o) k
  -- the reader is still there when the read ends
  have found : ∀ u k₂, collectHandles cur w.id k = .ok u k₂ →
      ∃ t', (answerWaiter w.id n k₂).thread? cur = some t' := by
    intro u k₂ ran
    rw [ran] at frame
    obtain ⟨t₂, ht₂, _⟩ := thread?_of_calls (frame.calls cur) ht
    obtain ⟨t₃, ht₃, _⟩ := thread?_of_calls (answerWaiter_calls w.id n k₂ cur) ht₂
    exact ⟨t₃, ht₃⟩
  constructor
  · intro err k' ran
    rcases Prog.bind_eq_err ran with bad | ⟨u, k₂, ran₂, last⟩
    · exact collectHandles_noErr ht bad
    · obtain ⟨t₃, ht₃⟩ := found u k₂ ran₂
      simp [Prog.bind_apply, n, finishRead_ok ht₃] at last
  · intro res k' ran o
    obtain ⟨u, k₂, ran₂, last⟩ := Prog.bind_eq_ok ran
    obtain ⟨t₃, ht₃⟩ := found u k₂ ran₂
    rw [ran₂] at frame
    simp only [Prog.bind_apply, Prog.modify_apply, n, finishRead_ok ht₃] at last
    cases last
    have frame' := pairFrame_mailbox (a := a) (b := b) (answerWaiter w.id n k₂) cur
      (extractHandles t₃.ipcTransferHandles hs).2
    have o₂ : k₂.OpenEnd a ∧ k₂.OpenEnd b := by simpa [OpenEnd] using o
    have first : Touched a b k k w.id := .of_frame (Std.Refl.refl k) e (frame.stays_open o₂)
    exact ⟨rfl, (Served.of_answer hw rfl state at_ first rfl frame o₂).then_frame at_ frame' o⟩

end Serve

/-! ## Waiting -/

section Wait

variable {a b cur : Nat} {k k' k'' : Kernel} {data : List UInt8} {hs : List Nat} {t : Thread}

/-- The thread `cur` is still in no call, and the pair is as it was. -/
structure Unqueued (a b : Nat) (k k' : Kernel) (cur : Nat) : Prop where
  touched : Touched a b k k' cur
  left : k'.chans a = k.chans a
  right : k'.chans b = k.chans b
  thread : ∃ t, k'.thread? cur = some t ∧ t.call = none

theorem Unqueued.trans (h : Unqueued a b k k' cur) (h' : Unqueued a b k' k'' cur) :
    Unqueued a b k k'' cur where
  touched := h.touched.trans h'.touched
  left := h'.left.trans h.left
  right := h'.right.trans h.right
  thread := h'.thread

theorem Unqueued.of_modify {f : Thread → Thread} (hf : ∀ t, (f t).id = t.id)
    (call : ∀ t, (f t).call = t.call) (e : Elsewhere a b k) (ht : k.thread? cur = some t)
    (idle : t.call = none) : Unqueued a b k (k.modifyThread cur f) cur where
  touched := .of_modify hf e ht (.of_idle idle)
  left := rfl
  right := rfl
  thread := ⟨f t, modifyThread_same _ hf ht, (call t).trans idle⟩

theorem Unqueued.of_frame (frame : PairFrame a b k k') (e : Elsewhere a b k)
    (o : k'.OpenEnd a ∧ k'.OpenEnd b) (ht : k.thread? cur = some t) (idle : t.call = none) :
    Unqueued a b k k' cur where
  touched := .of_frame frame e o
  left := frame.left o
  right := frame.right o
  thread := by
    obtain ⟨t', ht', call⟩ := thread?_of_calls (frame.calls cur) ht
    exact ⟨t', ht', call.trans idle⟩

theorem Unqueued.then_frame (h : Unqueued a b k k' cur) (frame : PairFrame a b k' k'')
    (o : k''.OpenEnd a ∧ k''.OpenEnd b) : Unqueued a b k k'' cur := by
  obtain ⟨t, ht, idle⟩ := h.thread
  exact h.trans (.of_frame frame h.touched.elsewhere o ht idle)

/-- The thread `cur` has joined a waiting line of `a` and sleeps in `call`. -/
structure Queued (a b : Nat) (k k' : Kernel) (cur : Nat) (call : Call) (data : List UInt8)
    (c' : Channel) : Prop where
  touched : Touched a b k k' cur
  left : k'.chans a = some c'
  right : k'.chans b = k.chans b
  thread : ∃ t, k'.thread? cur = some t ∧ t.state = .blocked ∧ t.call = some call ∧ t.ipcBuf = data

theorem Queued.of_enqueue {c' : Channel} {call : Call} (ne : a ≠ b) (h : Unqueued a b k k' cur)
    (ht : k'.thread? cur = some t) (state : t.state = .blocked) (buf : t.ipcBuf = data) :
    Queued a b k (enqueue cur a c' call k') cur call data c' := by
  obtain ⟨t', ht', idle⟩ := h.thread
  rw [ht] at ht'
  cases ht'
  have found : (enqueue cur a c' call k').thread? cur = some { t with call := some call } :=
    modifyThread_same (k'.setChan a (some c')) (by intro; rfl) ht
  refine ⟨h.touched.trans (.of_local h.touched.elsewhere (fun tid ne' => ?_) (fun p pa _ => ?_)
    ⟨t, ht, .of_idle idle⟩), ?_, ?_, ⟨_, found, state, rfl, buf⟩⟩
  · rw [enqueue, thread?_modifyThread _ (by intro; rfl), if_neg ne', setChan_thread?]
  · rw [enqueue, modifyThread_chans, setChan_chans_ne _ pa]
  · rw [enqueue, modifyThread_chans, setChan_chans_same]
  · rw [enqueue, modifyThread_chans, setChan_chans_ne _ ne.symm, h.right]

theorem pushSender_state {c c' : Channel} (h : c.pushSender cur = some c') : c'.state = c.state := by
  unfold Channel.pushSender at h
  obtain ⟨w, _, rfl⟩ := Option.map_eq_some_iff.mp h
  rfl

theorem openEnd_of_enqueue {c c' : Channel} {call : Call} (ne : a ≠ b) (hc : k.chans a = some c)
    (state : c'.state = c.state)
    (o : (enqueue cur a c' call k).OpenEnd a ∧ (enqueue cur a c' call k).OpenEnd b) :
    k.OpenEnd a ∧ k.OpenEnd b := by
  obtain ⟨⟨ca, hca, na⟩, ⟨cb, hcb, nb⟩⟩ := o
  rw [enqueue, modifyThread_chans, setChan_chans_same] at hca
  rw [enqueue, modifyThread_chans, setChan_chans_ne _ ne.symm] at hcb
  cases hca
  exact ⟨⟨c, hc, state ▸ na⟩, ⟨cb, hcb, nb⟩⟩

/-- Giving up in front of a full waiting line. -/
theorem abandonWrite_outcome {tab : Option Nat}
    (h : k'.OpenEnd a ∧ k'.OpenEnd b → Unqueued a b k k' cur) :
    (∀ res k'', abandonWrite cur tab k' ≠ .ok res k'') ∧
    ∀ err k'', abandonWrite cur tab k' = .err err k'' → k''.OpenEnd a ∧ k''.OpenEnd b →
      Unqueued a b k k'' cur := by
  have frame : PairFrame a b k' (restoreMessage cur tab k').state :=
    pairFrame_handles.calls.restoreMessage (fun k i o => pairFrame_setStash k cur i o) tab k'
  constructor
  · intro res k'' ran
    obtain ⟨_, k₂, _, last⟩ := Prog.bind_eq_ok ran
    cases last
  · intro err k'' ran o
    rcases Prog.bind_eq_err ran with stopped | ⟨_, k₂, ran₂, last⟩
    · rw [stopped] at frame
      exact (h (frame.stays_open o)).then_frame frame o
    · rw [ran₂] at frame
      cases last
      have h₂ := (h (frame.stays_open o)).then_frame frame o
      obtain ⟨t₂, ht₂, idle₂⟩ := h₂.thread
      exact h₂.trans (.of_modify (fun _ => rfl) (fun _ => rfl) h₂.touched.elsewhere ht₂ idle₂)

/-- A write that finds no receiver queues its thread, or fails without a trace on the pair. -/
theorem waitSender_outcome {c : Channel} (ne : a ≠ b) (e : Elsewhere a b k)
    (hc : k.chans a = some c)
    (ht : k.thread? cur = some t) (idle : t.call = none) (data : List UInt8) (hs : List Nat) :
    (∀ err k', waitSender cur a data hs k = .err err k' → k'.OpenEnd a ∧ k'.OpenEnd b →
      Unqueued a b k k' cur) ∧
    ∀ res k', waitSender cur a data hs k = .ok res k' → k'.OpenEnd a ∧ k'.OpenEnd b →
      res = .blocked ∧ ∃ c', c.pushSender cur = some c' ∧
        Queued a b k k' cur (.write a) data c' := by
  set k₁ := k.modifyThread cur (·.block data) with hk₁
  have first : Unqueued a b k k₁ cur := .of_modify (fun _ => rfl) (fun _ => rfl) e ht idle
  have ht₁ : k₁.thread? cur = some (t.block data) := modifyThread_same _ (fun _ => rfl) ht
  have stash : PairFrame a b k₁ (stashMessage cur hs k₁).state :=
    pairFrame_handles.calls.stashMessage (fun k i o => pairFrame_setStash k cur i o) hs k₁
  constructor
  · intro err k' ran o
    rcases waitSender_err ran with stopped | ⟨tab, k₂, c₂, ran₂, -, -, gave⟩
    · rw [stopped] at stash
      exact first.then_frame stash o
    · rw [ran₂] at stash
      exact (abandonWrite_outcome fun o₂ => first.then_frame stash o₂).2 err k' gave o
  · intro res k' ran o
    obtain ⟨tab, k₂, c₂, ran₂, hc₂, last⟩ := waitSender_ok ran
    rw [ran₂] at stash
    rcases last with ⟨_, gave⟩ | ⟨c', push, rfl, rfl⟩
    · exact absurd gave ((abandonWrite_outcome fun o₂ => first.then_frame stash o₂).1 res k')
    · have o₂ : k₂.OpenEnd a ∧ k₂.OpenEnd b := openEnd_of_enqueue ne hc₂ (pushSender_state push) o
      have same : k₂.chans a = some c := (stash.left o₂).trans hc
      rw [hc₂] at same
      cases same
      have h₂ := first.then_frame stash o₂
      obtain ⟨t₂, ht₂, view⟩ := stash.threads first.touched.elsewhere o₂ cur _ ht₁ (.of_idle idle)
      exact ⟨rfl, c', push, .of_enqueue ne h₂ ht₂ view.state_eq view.buf_eq⟩

theorem waitReceiver_outcome {c : Channel} (call : Call) (ne : a ≠ b) (hc : k'.chans a = some c)
    (h : Unqueued a b k k' cur) (ht : k'.thread? cur = some t) (state : t.state = .blocked)
    (buf : t.ipcBuf = data) :
    (∀ err k'', waitReceiver cur a call k' = .err err k'' → Unqueued a b k k'' cur) ∧
    ∀ res k'', waitReceiver cur a call k' = .ok res k'' →
      res = .blocked ∧ ∃ c', c.pushReceiver cur = some c' ∧ Queued a b k k'' cur call data c' := by
  obtain ⟨t', ht', idle⟩ := h.thread
  rw [ht] at ht'
  cases ht'
  simp only [waitReceiver, Prog.bind_apply, deref, hc]
  cases push : c.pushReceiver cur with
  | none =>
    refine ⟨fun err k'' ran => ?_, fun res k'' ran => ?_⟩
    · cases ran
      exact h.trans (.of_modify (fun _ => rfl) (fun _ => rfl) h.touched.elsewhere ht idle)
    · cases ran
  | some c' =>
    refine ⟨fun err k'' ran => ?_, fun res k'' ran => ?_⟩
    · cases ran
    · cases ran
      exact ⟨rfl, c', rfl, .of_enqueue ne h ht state buf⟩

end Wait

end Kernel

end CapsuleOS
