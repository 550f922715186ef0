import CapsuleOS.Ipc.Frames

/-!
# Queued threads stand in their calls

Every thread in a waiting line is blocked in the call that put it there, and no line has a thread
twice. All channel operations keep this as long as the scheduler resumes a call only when its
thread has been woken, or when it is a timed read past its deadline, which takes the thread out of
the line itself.
-/
namespace CapsuleOS

open Lib

/-- A read of either kind that waits on `p`. -/
def Call.Receives (p : Nat) : Call → Prop
  | .read q _ => q = p
  | .readWithTimeout q _ _ => q = p
  | .write _ => False

/-- The calls that wait in the line of this side on `p`. -/
def Side.Stands (side : Side) (p : Nat) (c : Call) : Prop :=
  match side with
  | .send => c = .write p
  | .recv => c.Receives p

theorem Side.Stands.unique {side side' : Side} {p p' : Nat} {c : Call} (h : side.Stands p c)
    (h' : side'.Stands p' c) : side = side' ∧ p = p' := by
  cases side <;> cases side' <;> cases c <;>
    simp_all [Side.Stands, Call.Receives]

namespace Kernel

/-- The thread is in a waiting line. -/
def InLine (k : Kernel) (side : Side) (p tid : Nat) : Prop :=
  ∃ c, k.chans p = some c ∧ tid ∈ (side.queue c).occupants

structure Standing (k : Kernel) : Prop where
  waiting : ∀ side p tid, k.InLine side p tid → ∃ t call, k.thread? tid = some t ∧
    t.state = .blocked ∧ t.call = some call ∧ side.Stands p call
  once : ∀ (side : Side) p c, k.chans p = some c → (side.queue c).occupants.Nodup

/-- What handle routines do to lines and calls. -/
structure Calm (k k' : Kernel) : Prop where
  standing : k.Standing → k'.Standing
  lines : ∀ side p tid, k'.InLine side p tid → k.InLine side p tid
  calls : ∀ tid, (k'.thread? tid).map Thread.call = (k.thread? tid).map Thread.call
  idle : k.Standing → ∀ tid t, k.thread? tid = some t → t.call = none →
    ∃ t', k'.thread? tid = some t' ∧ t'.state = t.state

section Calm

variable {k k' k'' : Kernel}

instance : Std.Refl Calm where
  refl _ := ⟨id, fun _ _ _ => id, fun _ => rfl, fun _ _ t ht _ => ⟨t, ht, rfl⟩⟩

theorem call_of_calls {tid : Nat} {t t' : Thread}
    (same : (k'.thread? tid).map Thread.call = (k.thread? tid).map Thread.call)
    (ht : k.thread? tid = some t) (ht' : k'.thread? tid = some t') : t'.call = t.call := by
  rw [ht, ht'] at same
  exact Option.some.inj same

theorem Calm.trans (h : Calm k k') (h' : Calm k' k'') : Calm k k'' where
  standing s := h'.standing (h.standing s)
  lines side p tid line := h.lines side p tid (h'.lines side p tid line)
  calls tid := (h'.calls tid).trans (h.calls tid)
  idle s tid t ht idle := by
    obtain ⟨t', ht', st⟩ := h.idle s tid t ht idle
    have idle' := (call_of_calls (h.calls tid) ht ht').trans idle
    obtain ⟨t'', ht'', st'⟩ := h'.idle (h.standing s) tid t' ht' idle'
    exact ⟨t'', ht'', st'.trans st⟩

instance : IsTrans Kernel Calm := ⟨fun _ _ _ => Calm.trans⟩

/-- A thread in no call is in no line. -/
theorem Standing.not_inLine (s : k.Standing) {tid : Nat} {t : Thread} (ht : k.thread? tid = some t)
    (idle : t.call = none) (side : Side) (p : Nat) : ¬ k.InLine side p tid := by
  intro line
  obtain ⟨t', call, ht', _, hc, _⟩ := s.waiting side p tid line
  rw [ht] at ht'
  cases ht'
  rw [idle] at hc
  cases hc

/-- A thread is in one line at most. -/
theorem Standing.one_line (s : k.Standing) {tid : Nat} {side side' : Side} {p p' : Nat}
    (h : k.InLine side p tid) (h' : k.InLine side' p' tid) : side = side' ∧ p = p' := by
  obtain ⟨t, c, ht, _, hc, stands⟩ := s.waiting side p tid h
  obtain ⟨t', c', ht', _, hc', stands'⟩ := s.waiting side' p' tid h'
  rw [ht] at ht'
  cases ht'
  rw [hc] at hc'
  cases hc'
  exact stands.unique stands'

/-- Lines that only get shorter, with the threads in them as they were. -/
theorem Standing.shrink (s : k.Standing)
    (lines : ∀ (side : Side) p c', k'.chans p = some c' → ∃ c, k.chans p = some c ∧
      (side.queue c').occupants.Subperm (side.queue c).occupants)
    (threads : ∀ side p tid t, k'.InLine side p tid → k.thread? tid = some t →
      ∃ t', k'.thread? tid = some t' ∧ t'.state = t.state ∧ t'.call = t.call) : k'.Standing where
  waiting side p tid line := by
    obtain ⟨c', hc', mem⟩ := line
    obtain ⟨c, hc, sub⟩ := lines side p c' hc'
    obtain ⟨t, call, ht, st, hcall, stands⟩ := s.waiting side p tid ⟨c, hc, sub.subset mem⟩
    obtain ⟨t', ht', st', call'⟩ := threads side p tid t ⟨c', hc', mem⟩ ht
    exact ⟨t', call, ht', st'.trans st, call'.trans hcall, stands⟩
  once side p c' hc' := by
    obtain ⟨c, hc, sub⟩ := lines side p c' hc'
    obtain ⟨xs, perm, sublist⟩ := sub
    exact perm.nodup_iff.mp ((s.once side p c hc).sublist sublist)

theorem Standing.of_threads (s : k.Standing) (chans : k'.chans = k.chans)
    (threads : ∀ tid t, k.thread? tid = some t → t.call ≠ none →
      ∃ t', k'.thread? tid = some t' ∧ t'.state = t.state ∧ t'.call = t.call) : k'.Standing := by
  refine s.shrink (fun side p c' hc' => ⟨c', chans ▸ hc', .refl _⟩)
    fun side p tid t line ht => threads tid t ht ?_
  have line' : k.InLine side p tid := by simpa [InLine, chans] using line
  exact fun idle => s.not_inLine ht idle side p line'

theorem Calm.of_same (chans : k'.chans = k.chans) (threads : k'.thread? = k.thread?) :
    Calm k k' where
  standing s := s.of_threads chans fun tid t ht _ => ⟨t, by rw [threads, ht], rfl, rfl⟩
  lines side p tid line := by simpa [InLine, chans] using line
  calls tid := by rw [threads]
  idle _ tid t ht _ := ⟨t, by rw [threads, ht], rfl⟩

theorem Calm.of_modify (k : Kernel) (tid : Nat) {f : Thread → Thread} (hf : ∀ t, (f t).id = t.id)
    (state : ∀ t, (f t).state = t.state) (call : ∀ t, (f t).call = t.call) :
    Calm k (k.modifyThread tid f) := by
  have found : ∀ tid' t, k.thread? tid' = some t → ∃ t', (k.modifyThread tid f).thread? tid' = some t' ∧
      t'.state = t.state ∧ t'.call = t.call := by
    intro tid' t ht
    rw [thread?_modifyThread _ hf, ht]
    split_ifs
    · exact ⟨f t, rfl, state t, call t⟩
    · exact ⟨t, rfl, rfl, rfl⟩
  refine ⟨fun s => s.of_threads rfl fun tid' t ht _ => found tid' t ht, fun _ _ _ => id,
    fun tid' => ?_, fun _ tid' t ht _ => ?_⟩
  · rw [thread?_modifyThread _ hf]
    split_ifs
    · simp [Option.map_map, Function.comp_def, call]
    · rfl
  · obtain ⟨t', ht', st, _⟩ := found tid' t ht
    exact ⟨t', ht', st⟩

theorem calm_deliver (k : Kernel) (tid i hv : Nat) : Calm k (deliver tid i hv k) :=
  .of_modify k tid (fun _ => rfl) (fun _ => rfl) fun _ => rfl

theorem calm_setStash (k : Kernel) (tid i : Nat) (o : Option (KernelObject × Nat)) :
    Calm k (setStash tid i o k) :=
  .of_modify k tid (fun _ => rfl) (fun _ => rfl) fun _ => rfl

/-- Emptying the lines of an endpoint and waking whoever stood there. -/
theorem calm_shut {p : Nat} {c : Channel} (h : k.chans p = some c) :
    Calm k ((k.setChan p (some c.shut)).wakeAll c.waiters) := by
  have lines : ∀ (side : Side) q c', ((k.setChan p (some c.shut)).wakeAll c.waiters).chans q = some c' →
      ∃ d, k.chans q = some d ∧ (side.queue c').occupants.Subperm (side.queue d).occupants ∧
        (q = p → (side.queue c').occupants = []) := by
    intro side q c' hc'
    rw [wakeAll_chans, setChan_chans] at hc'
    split_ifs at hc' with eq
    · subst eq
      cases hc'
      have empty : (side.queue c.shut).occupants = [] := by cases side <;> simp [Side.queue, Channel.shut]
      exact ⟨c, h, by simp [empty], fun _ => empty⟩
    · exact ⟨c', hc', .refl _, fun same => absurd same eq⟩
  refine ⟨fun s => s.shrink (fun side q c' hc' => ?_) fun side q tid t line ht => ?_,
    fun side q tid line => ?_, fun tid => wakeAll_calls _ _ tid, fun s tid t ht idle => ?_⟩
  · obtain ⟨d, hd, sub, _⟩ := lines side q c' hc'
    exact ⟨d, hd, sub⟩
  · -- whoever is still in a line stood on another endpoint and has not been woken
    obtain ⟨c', hc', mem⟩ := line
    obtain ⟨d, hd, sub, empty⟩ := lines side q c' hc'
    have ne : q ≠ p := by
      rintro rfl
      rw [empty rfl] at mem
      cases mem
    have not_woken : tid ∉ c.waiters := by
      intro woken
      obtain ⟨side', mem'⟩ := Side.mem_waiters.mp woken
      exact ne (s.one_line ⟨d, hd, sub.subset mem⟩ ⟨c, h, mem'⟩).2
    refine ⟨t, ?_, rfl, rfl⟩
    rw [thread?_wakeAll, if_neg not_woken, setChan_thread?, ht]
  · obtain ⟨c', hc', mem⟩ := line
    obtain ⟨d, hd, sub, _⟩ := lines side q c' hc'
    exact ⟨d, hd, sub.subset mem⟩
  · have not_woken : tid ∉ c.waiters := by
      intro woken
      obtain ⟨side', mem'⟩ := Side.mem_waiters.mp woken
      exact s.not_inLine ht idle side' p ⟨c, h, mem'⟩
    refine ⟨t, ?_, rfl⟩
    rw [thread?_wakeAll, if_neg not_woken, setChan_thread?, ht]

theorem calm_free (k : Kernel) (p : Nat) : Calm k (k.setChan p none) where
  standing s := by
    refine s.shrink (fun side q c' hc' => ?_) fun side q tid t line ht => ⟨t, ht, rfl, rfl⟩
    rw [setChan_chans] at hc'
    split_ifs at hc' with eq
    exact ⟨c', hc', .refl _⟩
  lines side q tid line := by
    obtain ⟨c', hc', mem⟩ := line
    rw [setChan_chans] at hc'
    split_ifs at hc' with eq
    exact ⟨c', hc', mem⟩
  calls _ := rfl
  idle _ _ t ht _ := ⟨t, ht, rfl⟩

theorem calm_close (p : Nat) : Prog.Within Calm (closeChannel p) := by
  intro k
  rw [closeChannel, Prog.bind_apply, deref]
  cases h : k.chans p with
  | none => exact Std.Refl.refl k
  | some c =>
    simp only [Prog.bind_apply, shutEndpoint, Prog.modify_apply]
    cases hpeer : c.peer with
    | none => exact calm_shut h
    | some q =>
      simp only [Prog.bind_apply, deref]
      cases hq : ((k.setChan p (some c.shut)).wakeAll c.waiters).chans q with
      | none => exact calm_shut h
      | some d => exact (calm_shut h).trans (calm_shut hq)

theorem calm_handles : HandleFrame Calm where
  counter _ _ := .of_same rfl rfl
  table _ _ _ := .of_same rfl rfl
  mm _ _ := .of_same rfl rfl
  drop := within_drop calm_close calm_free

end Calm

/-! ## Single updates -/

section Updates

variable {k : Kernel} {side : Side} {p q cur : Nat} {c c' d d' : Channel} {t : Thread}

/-- The thread is in no waiting line. -/
def Unlined (k : Kernel) (tid : Nat) : Prop := ∀ side p, ¬ k.InLine side p tid

/-- A thread that stands in no line may change. -/
theorem Standing.modify (s : k.Standing) {f : Thread → Thread} (hf : ∀ t, (f t).id = t.id)
    (out : k.Unlined cur) : (k.modifyThread cur f).Standing := by
  refine s.shrink (fun side p c' hc' => ⟨c', hc', .refl _⟩) fun side p tid t line ht => ⟨t, ?_, rfl, rfl⟩
  have ne : tid ≠ cur := by
    rintro rfl
    exact out side p line
  rw [thread?_modifyThread _ hf, if_neg ne, ht]

theorem Standing.answer (s : k.Standing) (out : k.Unlined cur) (n : Nat) :
    (answerWaiter cur n k).Standing := by
  refine s.shrink (fun side p c' hc' => ⟨c', by simpa using hc', .refl _⟩)
    fun side p tid t line ht => ⟨t, ?_, rfl, rfl⟩
  have ne : tid ≠ cur := by
    rintro rfl
    exact out side p (by simpa [InLine] using line)
  rw [answerWaiter_thread?, if_neg ne, ht]

/-- The first thread leaves a line, and is then in none. -/
theorem Standing.pop (s : k.Standing) (hd : k.chans q = some d) (pop : side.pop d = some (cur, d')) :
    (k.setChan q (some d')).Standing ∧ (k.setChan q (some d')).Unlined cur := by
  obtain ⟨perm, same⟩ := Side.pop_perm pop
  have lines : ∀ (side' : Side) p c', (k.setChan q (some d')).chans p = some c' →
      ∃ c, k.chans p = some c ∧ (side'.queue c').occupants.Subperm (side'.queue c).occupants := by
    intro side' p c' hc'
    rw [setChan_chans] at hc'
    split_ifs at hc' with eq
    · subst eq
      cases hc'
      refine ⟨d, hd, ?_⟩
      by_cases own : side' = side
      · subst own
        exact (List.sublist_cons_self _ _).subperm.trans perm.symm.subperm
      · have other : side' = side.other := by cases side <;> cases side' <;> simp_all [Side.other]
        rw [other, same]
    · exact ⟨c', hc', .refl _⟩
  refine ⟨s.shrink lines fun _ _ _ t _ ht => ⟨t, ht, rfl, rfl⟩, fun side' p line => ?_⟩
  obtain ⟨c', hc', mem⟩ := line
  obtain ⟨c, hc, sub⟩ := lines side' p c' hc'
  obtain ⟨rfl, rfl⟩ := s.one_line ⟨c, hc, sub.subset mem⟩ ⟨d, hd, perm.symm.subset List.mem_cons_self⟩
  rw [setChan_chans_same] at hc'
  cases hc'
  exact (List.nodup_cons.mp (perm.nodup_iff.mp (s.once _ _ _ hd))).1 mem

/-- A blocked thread joins a line. -/
theorem Standing.enqueue (s : k.Standing) (out : k.Unlined cur) (hc : k.chans p = some c)
    (push : side.push c cur = some c') (ht : k.thread? cur = some t) (state : t.state = .blocked)
    {call : Call} (stands : side.Stands p call) : (enqueue cur p c' call k).Standing := by
  obtain ⟨perm, same⟩ := Side.push_perm push
  have lines : ∀ (side' : Side) q d', (Kernel.enqueue cur p c' call k).chans q = some d' →
      (∃ d, k.chans q = some d ∧ side'.queue d' = side'.queue d) ∨
        q = p ∧ side' = side ∧ d' = c' := by
    intro side' q d' hd'
    rw [Kernel.enqueue, modifyThread_chans, setChan_chans] at hd'
    split_ifs at hd' with eq
    · subst eq
      cases hd'
      by_cases own : side' = side
      · exact Or.inr ⟨rfl, own, rfl⟩
      · have other : side' = side.other := by cases side <;> cases side' <;> simp_all [Side.other]
        exact Or.inl ⟨c, hc, by rw [other, same]⟩
    · exact Or.inl ⟨d', hd', rfl⟩
  have others : ∀ tid, tid ≠ cur → (Kernel.enqueue cur p c' call k).thread? tid = k.thread? tid := by
    intro tid ne
    rw [Kernel.enqueue, thread?_modifyThread _ (by intro; rfl), if_neg ne, setChan_thread?]
  have own : (Kernel.enqueue cur p c' call k).thread? cur = some { t with call := some call } :=
    modifyThread_same (k.setChan p (some c')) (by intro; rfl) ht
  have old : ∀ side' q tid, k.InLine side' q tid → ∃ u v, (Kernel.enqueue cur p c' call k).thread? tid = some u ∧
      u.state = .blocked ∧ u.call = some v ∧ side'.Stands q v := by
    intro side' q tid line
    obtain ⟨u, v, hu, st, hv, stands'⟩ := s.waiting side' q tid line
    have ne : tid ≠ cur := by
      rintro rfl
      exact out side' q line
    exact ⟨u, v, by rw [others tid ne, hu], st, hv, stands'⟩
  refine ⟨fun side' q tid line => ?_, fun side' q d' hd' => ?_⟩
  · obtain ⟨d', hd', mem⟩ := line
    rcases lines side' q d' hd' with ⟨d, hd, eq⟩ | ⟨rfl, rfl, rfl⟩
    · exact old side' q tid ⟨d, hd, eq ▸ mem⟩
    · rcases List.mem_cons.mp (perm.subset mem) with rfl | before
      · exact ⟨_, call, own, state, rfl, stands⟩
      · exact old _ _ tid ⟨c, hc, before⟩
  · rcases lines side' q d' hd' with ⟨d, hd, eq⟩ | ⟨rfl, rfl, rfl⟩
    · exact eq ▸ s.once side' q d hd
    · rw [perm.nodup_iff, List.nodup_cons]
      exact ⟨fun mem => out _ _ ⟨c, hc, mem⟩, s.once _ _ _ hc⟩

end Updates

/-! ## Calls -/

section Calls

variable {k : Kernel} {side : Side} {cur self : Nat} {serve : Thread → KernelM CallResult}
  {wait : KernelM CallResult} {data : List UInt8} {hs : List Nat} {t : Thread}

/-- The thread that a call on `p` will serve, and the state without it in its line. -/
def served (k : Kernel) (side : Side) (p : Nat) : Option (Thread × Kernel) := do
  let c ← k.chans p
  if c.state = .closed then none
  else
    let q ← c.peer
    let d ← k.chans q
    let (tid, d') ← side.pop d
    let w ← k.thread? tid
    return (w, k.setChan q (some d'))

/-- The three ways a call can go: it stops before it has changed anything, it serves the first
thread in the line of the peer, or it waits. -/
inductive Meets (k : Kernel) (side : Side) (cur self : Nat) (serve : Thread → KernelM CallResult)
    (wait : KernelM CallResult) : Outcome Kernel Status CallResult → Prop where
  | failed (e : Status) (nobody : k.served side self = none) :
      Meets k side cur self serve wait (.err e k)
  | faulted : Meets k side cur self serve wait (.fault k)
  | serve {c d d' : Channel} {q : Nat} {w : Thread} {call : Call} (hc : k.chans self = some c)
      (open_ : c.state ≠ .closed) (peer : c.peer = some q) (hd : k.chans q = some d)
      (pop : side.pop d = some (w.id, d')) (hw : k.thread? w.id = some w)
      (state : w.state = .blocked) (hcall : w.call = some call) (stands : side.Stands q call)
      (found : k.served side self = some (w, k.setChan q (some d'))) :
      Meets k side cur self serve wait (serve w (k.setChan q (some d')))
  | wait {c d : Channel} {q : Nat} (hc : k.chans self = some c) (open_ : c.state ≠ .closed)
      (peer : c.peer = some q) (hd : k.chans q = some d) (pop : side.pop d = none)
      (nobody : k.served side self = none) : Meets k side cur self serve wait (wait k)

theorem meet_result (s : k.Standing) (ht : k.thread? cur = some t) :
    Meets k side cur self serve wait (meet side cur self serve wait k) := by
  cases hc : k.chans self with
  | none => simpa [meet, Prog.bind_apply, deref, hc] using Meets.faulted
  | some c =>
    by_cases closed : c.state = .closed
    · simpa [meet, Prog.bind_apply, deref, hc, closed] using
        Meets.failed .peerClosed (by simp [served, hc, closed])
    · cases peer : c.peer with
      | none =>
        simpa [meet, Prog.bind_apply, deref, hc, closed, currentThread, ht, peer] using
          Meets.failed .peerClosed (by simp [served, hc, closed, peer])
      | some q =>
        cases hd : k.chans q with
        | none =>
          simpa [meet, Prog.bind_apply, deref, hc, closed, currentThread, ht, peer, takeWaiter, hd]
            using Meets.faulted
        | some d =>
          cases pop : side.pop d with
          | none =>
            rw [meet_wait hc closed ht peer hd pop]
            exact .wait hc closed peer hd pop (by simp [served, hc, closed, peer, hd, pop])
          | some r =>
            obtain ⟨tid, d'⟩ := r
            have mem := (Side.pop_perm pop).1.symm.subset List.mem_cons_self
            obtain ⟨w, call, hw, state, hcall, stands⟩ := s.waiting side q tid ⟨d, hd, mem⟩
            rw [meet_serve hc closed ht peer hd pop hw]
            obtain rfl := k.thread?_id hw
            exact .serve hc closed peer hd pop hw state hcall stands
              (by simp [served, hc, closed, peer, hd, pop, hw])

theorem Standing.of_calm {α : Type} {m : KernelM α} (s : k.Standing) (calm : Prog.Within Calm m) :
    (m k).state.Standing := (calm k).standing s

theorem calm_passHandles (cur : Nat) (w : Thread) (hs : List Nat) :
    Prog.Within Calm (passHandles cur w hs) :=
  calm_handles.calls.passHandles (fun k i hv => calm_deliver k _ i hv) hs

theorem calm_collectHandles (cur sender : Nat) : Prog.Within Calm (collectHandles cur sender) :=
  calm_handles.calls.collectHandles (fun k i hv => calm_deliver k _ i hv) fun k i o => calm_setStash k _ i o

theorem Unlined.calm {k' : Kernel} {tid : Nat} (h : k.Unlined tid) (calm : Calm k k') :
    k'.Unlined tid := fun side p line => h side p (calm.lines side p tid line)

/-- A calm routine, then one that works on what it leaves. -/
theorem Standing.bind {α β : Type} {m : KernelM α} {f : α → KernelM β} (s : k.Standing)
    (calm : Prog.Within Calm m) (rest : ∀ a k', m k = .ok a k' → Calm k k' → k'.Standing →
      (f a k').state.Standing) : ((m >>= f) k).state.Standing := by
  have after := calm k
  rw [Prog.bind_apply]
  cases hm : m k with
  | ok a k' => rw [hm] at after; exact rest a k' hm after (after.standing s)
  | err e k' => rw [hm] at after; exact after.standing s
  | fault k' => rw [hm] at after; exact after.standing s

/-- Serving a thread that has left its line. -/
theorem sendTo_standing {w : Thread} (s : k.Standing) (out : k.Unlined w.id) :
    (sendTo cur w data hs k).state.Standing := by
  have s₁ : (k.modifyThread w.id (·.fill (data.take (min data.length w.ipcBuf.length)))).Standing :=
    s.modify (fun _ => rfl) out
  refine s₁.bind (calm_passHandles cur w hs) fun _ k₂ _ calm s₂ => ?_
  have out₁ : Unlined (k.modifyThread w.id
    (·.fill (data.take (min data.length w.ipcBuf.length)))) w.id := out
  exact s₂.answer (out₁.calm calm) _

theorem finishRead_standing (s : k.Standing) (cur n : Nat) (buf : List UInt8) (hs : List Nat) :
    (finishRead cur n buf hs k).state.Standing := by
  cases ht : k.thread? cur with
  | none => simpa [finishRead, Prog.bind_apply, currentThread, ht] using s
  | some t =>
    rw [finishRead_ok ht]
    exact (Calm.of_modify k cur (by intro; rfl) (by intro; rfl) (by intro; rfl)).standing s

theorem receiveFrom_noErr {k' : Kernel} {w : Thread} (ht : k.thread? cur = some t) (e : Status) :
    receiveFrom cur w data hs k ≠ .err e k' := by
  intro ran
  rcases Prog.bind_eq_err ran with bad | ⟨u, k₂, ran₂, last⟩
  · exact collectHandles_noErr ht bad
  · have calm := calm_collectHandles cur w.id k
    rw [ran₂] at calm
    obtain ⟨t₂, ht₂, _⟩ := thread?_of_calls (calm.calls cur) ht
    obtain ⟨t₃, ht₃, _⟩ := thread?_of_calls
      (answerWaiter_calls w.id (min w.ipcBuf.length data.length) k₂ cur) ht₂
    simp [Prog.bind_apply, finishRead_ok ht₃] at last

theorem receiveFrom_standing {w : Thread} (s : k.Standing) (out : k.Unlined w.id) :
    (receiveFrom cur w data hs k).state.Standing := by
  refine s.bind (calm_collectHandles cur w.id) fun _ k₂ _ calm s₂ => ?_
  exact finishRead_standing (s₂.answer (out.calm calm) _) _ _ _ _

theorem waitReceiver_standing {call : Call} (s : k.Standing) (ht : k.thread? cur = some t)
    (state : t.state = .blocked) (idle : t.call = none) (receives : call.Receives self) :
    (waitReceiver cur self call k).state.Standing := by
  have out : k.Unlined cur := s.not_inLine ht idle
  cases hc : k.chans self with
  | none => simpa [waitReceiver, Prog.bind_apply, deref, hc] using s
  | some c =>
    cases push : c.pushReceiver cur with
    | none =>
      have stopped : (k.modifyThread cur (·.setState .running)).Standing := s.modify (fun _ => rfl) out
      simpa [waitReceiver, Prog.bind_apply, deref, hc, push] using stopped
    | some c' =>
      have joined : (enqueue cur self c' call k).Standing :=
        s.enqueue out hc (show Side.recv.push c cur = some c' from push) ht state receives
      simpa [waitReceiver, Prog.bind_apply, deref, hc, push] using joined

theorem calm_stashMessage (cur : Nat) (hs : List Nat) : Prog.Within Calm (stashMessage cur hs) :=
  calm_handles.calls.stashMessage (fun k i o => calm_setStash k cur i o) hs

theorem calm_restoreMessage (cur : Nat) (tab : Option Nat) :
    Prog.Within Calm (restoreMessage cur tab) :=
  calm_handles.calls.restoreMessage (fun k i o => calm_setStash k cur i o) tab

theorem abandonWrite_standing {tab : Option Nat} (s : k.Standing) (ht : k.thread? cur = some t)
    (idle : t.call = none) : (abandonWrite cur tab k).state.Standing := by
  refine s.bind (calm_restoreMessage cur tab) fun _ k₂ _ calm₂ s₂ => s₂.modify (fun _ => rfl) ?_
  exact Unlined.calm (s.not_inLine ht idle) calm₂

theorem waitSender_standing (s : k.Standing) (ht : k.thread? cur = some t) (idle : t.call = none) :
    (waitSender cur self data hs k).state.Standing := by
  have out : k.Unlined cur := s.not_inLine ht idle
  have s₁ : (k.modifyThread cur (·.block data)).Standing := s.modify (fun _ => rfl) out
  have ht₁ : (k.modifyThread cur (·.block data)).thread? cur = some (t.block data) :=
    modifyThread_same k (fun _ => rfl) ht
  refine s₁.bind (calm_stashMessage cur hs) fun tab k₂ _ calm s₂ => ?_
  obtain ⟨t₂, ht₂, state⟩ := calm.idle s₁ cur _ ht₁ idle
  have idle₂ : t₂.call = none := (call_of_calls (calm.calls cur) ht₁ ht₂).trans idle
  cases hc : k₂.chans self with
  | none => simpa [Prog.bind_apply, deref, hc] using s₂
  | some c =>
    cases push : c.pushSender cur with
    | none =>
      simpa [Prog.bind_apply, deref, hc, push] using abandonWrite_standing s₂ ht₂ idle₂
    | some c' =>
      have joined : (enqueue cur self c' (.write self) k₂).Standing :=
        s₂.enqueue (s₂.not_inLine ht₂ idle₂) hc (show Side.send.push c cur = some c' from push) ht₂
          state rfl
      simpa [Prog.bind_apply, deref, hc, push] using joined

/-- A call keeps the lines in order, whichever way it goes. -/
theorem Meets.standing {out : Outcome Kernel Status CallResult}
    (h : Meets k side cur self serve wait out) (s : k.Standing)
    (served : ∀ w k', k'.Standing → k'.Unlined w.id → (serve w k').state.Standing)
    (waited : (wait k).state.Standing) : out.state.Standing := by
  cases h with
  | failed e _ => exact s
  | faulted => exact s
  | serve hc _ _ hd pop _ _ _ _ _ =>
    obtain ⟨popped, out⟩ := s.pop hd pop
    exact served _ _ popped out
  | wait => exact waited

theorem channelWrite_standing (s : k.Standing) (ht : k.thread? cur = some t) (idle : t.call = none) :
    (channelWrite cur self data hs k).state.Standing :=
  (meet_result s ht).standing s (fun _ _ => sendTo_standing) (waitSender_standing s ht idle)

theorem channelRead_standing (s : k.Standing) (ht : k.thread? cur = some t) (idle : t.call = none) :
    (channelRead cur self data hs k).state.Standing := by
  refine (meet_result s ht).standing s (fun _ _ => receiveFrom_standing) ?_
  exact waitReceiver_standing (s.modify (fun _ => rfl) (s.not_inLine ht idle))
    (modifyThread_same k (fun _ => rfl) ht) rfl idle rfl

theorem channelReadWithTimeout_standing {ms : Nat} (s : k.Standing) (ht : k.thread? cur = some t)
    (idle : t.call = none) : (channelReadWithTimeout cur self data hs ms k).state.Standing := by
  refine (meet_result s ht).standing s (fun _ _ => receiveFrom_standing) ?_
  exact waitReceiver_standing (s.modify (fun _ => rfl) (s.not_inLine ht idle))
    (modifyThread_same k (fun _ => rfl) ht) rfl idle rfl

/-- The scheduler may go on with the call of this thread: it has been woken, or its deadline is
over. -/
def MayResume (k : Kernel) (t : Thread) : Prop :=
  t.state = .ready ∨ ∃ p hs dl, t.call = some (.readWithTimeout p hs (some dl)) ∧ dl ≤ k.ticks

/-- A thread that is not blocked is in no line. -/
theorem Standing.unlined_of_ready (s : k.Standing) (ht : k.thread? cur = some t)
    (ready : t.state = .ready) : k.Unlined cur := by
  intro side p line
  obtain ⟨t', _, ht', blocked, _⟩ := s.waiting side p cur line
  rw [ht] at ht'
  cases ht'
  rw [ready] at blocked
  cases blocked

/-- The deadline of a timed read is over: the thread leaves its line. -/
theorem timeout_standing {c : Channel} {dl : Option Nat} (s : k.Standing)
    (ht : k.thread? cur = some t) (hc : t.call = some (.readWithTimeout self hs dl))
    (hself : k.chans self = some c) :
    (((wakeUp cur k).setChan self (some (c.removeReceiver cur))).modifyThread cur
      (·.giveUp)).Standing := by
  set k' := ((wakeUp cur k).setChan self (some (c.removeReceiver cur))).modifyThread cur (·.giveUp)
    with hk'
  have chans : ∀ q, k'.chans q = if q = self then some (c.removeReceiver cur) else k.chans q :=
    fun q => setChan_chans _ _ _ _
  have lines : ∀ (side' : Side) p c', k'.chans p = some c' → ∃ d, k.chans p = some d ∧
      (side'.queue c').occupants.Subperm (side'.queue d).occupants := by
    intro side' p c' hc'
    rw [chans] at hc'
    split_ifs at hc' with eq
    · subst eq
      cases hc'
      refine ⟨c, hself, ?_⟩
      cases side' with
      | send => rw [Side.queue, Side.queue, c.removeReceiver_send]
      | recv => exact (c.removeReceiver_recv cur).1
    · exact ⟨c', hc', .refl _⟩
  refine s.shrink lines fun side' p tid u line hu => ⟨u, ?_, rfl, rfl⟩
  have ne : tid ≠ cur := by
    rintro rfl
    obtain ⟨c', hc', mem⟩ := line
    obtain ⟨d, hd, sub⟩ := lines side' p c' hc'
    obtain ⟨t', v, ht', _, hv, stands⟩ := s.waiting side' p tid ⟨d, hd, sub.subset mem⟩
    rw [ht] at ht'
    cases ht'
    rw [hc] at hv
    cases hv
    have own : Side.recv.Stands self (.readWithTimeout self hs dl) := rfl
    obtain ⟨rfl, rfl⟩ := stands.unique own
    rw [chans, if_pos rfl] at hc'
    cases hc'
    exact (c.removeReceiver_recv tid).2 (s.once .recv _ c hself) mem
  rw [hk', thread?_modifyThread _ Thread.giveUp_id, if_neg ne, setChan_thread?, wakeUp,
    thread?_modifyThread _ (by intro; rfl), if_neg ne, hu]

/-- The rest of a call keeps the lines in order. -/
theorem resume_standing (s : k.Standing) (ht : k.thread? cur = some t) (may : k.MayResume t) :
    (∃ k', resume cur k = .fault k') ∨ (resume cur k).state.Standing := by
  have woken : t.state = .ready → (wakeUp cur k).Standing := fun ready =>
    s.modify (fun _ => rfl) (s.unlined_of_ready ht ready)
  cases hc : t.call with
  | none => exact Or.inl ⟨_, by simp [resume, Prog.bind_apply, currentThread, ht, hc]; rfl⟩
  | some call =>
    cases call with
    | write p =>
      rw [resume_write ht hc]
      rcases may with ready | ⟨_, _, _, bad, _⟩
      · exact Or.inr (woken ready)
      · rw [hc] at bad; cases bad
    | read p hs =>
      rcases may with ready | ⟨_, _, _, bad, _⟩
      · rw [resume_read ht hc]
        exact Or.inr ((Calm.of_modify (wakeUp cur k) cur (by intro; rfl) (by intro; rfl)
          (by intro; rfl)).standing (woken ready))
      · rw [hc] at bad; cases bad
    | readWithTimeout p hs dl =>
      rw [resume_readWithTimeout ht hc]
      by_cases late : dl.any ((wakeUp cur k).ticks ≥ ·)
      · cases hself : (wakeUp cur k).chans p with
        | none =>
          exact Or.inl ⟨_, by simp [finishTimedRead, Prog.bind_apply, late, deref, hself]; rfl⟩
        | some c =>
          refine Or.inr ?_
          simpa [finishTimedRead, Prog.bind_apply, late, deref, hself] using
            timeout_standing s ht hc hself
      · have ready : t.state = .ready := by
          rcases may with ready | ⟨p', hs', dl', hc', passed⟩
          · exact ready
          · rw [hc] at hc'
            cases hc'
            have passed' : dl' ≤ (wakeUp cur k).ticks := passed
            exact absurd (by simpa using passed') late
        refine Or.inr ?_
        simpa [finishTimedRead, Prog.bind_apply, late] using
          finishRead_standing (woken ready) cur t.ipcActualLen t.ipcBuf hs

theorem sysClose_standing (s : k.Standing) (tab hv : Nat) : (sysClose tab hv k).state.Standing :=
  s.of_calm ((calm_handles.removeWithRights tab hv).bind fun o => calm_handles.dropObject o.1)

end Calls

/-- On the small machine nobody waits. -/
theorem demo_standing (object : KernelObject) : (demo object).Standing := by
  have empty : ∀ (side : Side) p c, (demo object).chans p = some c →
      (side.queue c).occupants = [] := by
    intro side p c hc
    simp only [demo] at hc
    split_ifs at hc <;> cases hc <;> cases side <;> rfl
  constructor
  · rintro side p tid ⟨c, hc, mem⟩
    rw [empty side p c hc] at mem
    cases mem
  · intro side p c hc
    rw [empty side p c hc]
    exact List.nodup_nil

end Kernel

end CapsuleOS
