import CapsuleOS.Ipc.Machine
import CapsuleOS.Ipc.Registry

/-!
# Peer links

Every live endpoint is linked with a live endpoint that links back, both open, or it is closed, has
no peer and nobody waits on it. This module shows which routines keep that: all of them do, except a
write that queues its thread after its own preparations have closed the endpoint, and the creation
of a pair that does not get two cells of the table under new values.
-/
namespace CapsuleOS

open Lib

namespace Kernel

def EndpointOk (k : Kernel) (p : Nat) (c : Channel) : Prop :=
  match c.peer with
  | some q => q ≠ p ∧ c.state = .opened ∧
      ∃ d, k.chans q = some d ∧ d.peer = some p ∧ d.state = .opened
  | none => c.state = .closed ∧ c.waiters = []

def Paired (k : Kernel) : Prop := ∀ p c, k.chans p = some c → k.EndpointOk p c

/-- The routine keeps the links. -/
def Keeps (k k' : Kernel) : Prop := k.Paired → k'.Paired

instance : Std.Refl Keeps := ⟨fun _ => id⟩

instance : IsTrans Kernel Keeps := ⟨fun _ _ _ h h' => h' ∘ h⟩

variable {k k' : Kernel} {p q : Nat} {c c' d : Channel}

theorem Paired.linked (h : k.Paired) (hc : k.chans p = some c) (peer : c.peer = some q) :
    q ≠ p ∧ c.state = .opened ∧ ∃ d, k.chans q = some d ∧ d.peer = some p ∧ d.state = .opened := by
  have ok := h p c hc
  rwa [EndpointOk, peer] at ok

theorem Paired.unlinked (h : k.Paired) (hc : k.chans p = some c) (peer : c.peer = none) :
    c.state = .closed ∧ c.waiters = [] := by
  have ok := h p c hc
  rwa [EndpointOk, peer] at ok

theorem keeps_of_chans (h : k'.chans = k.chans) : Keeps k k' := by
  intro paired p c hc
  rw [h] at hc
  have ok := paired p c hc
  unfold EndpointOk at ok ⊢
  rw [h]
  exact ok

/-- An endpoint changes its waiting lines. -/
theorem Paired.requeue (h : k.Paired) (hc : k.chans p = some c) (peer : c'.peer = c.peer)
    (state : c'.state = c.state) (quiet : c.peer = none → c'.waiters = []) :
    (k.setChan p (some c')).Paired := by
  -- links and states are what they were
  have back : ∀ q d', (k.setChan p (some c')).chans q = some d' →
      ∃ d, k.chans q = some d ∧ d'.peer = d.peer ∧ d'.state = d.state ∧ (d.peer = none →
        d.waiters = [] → d'.waiters = []) := by
    intro q d' hd'
    rw [setChan_chans] at hd'
    split_ifs at hd' with eq
    · cases hd'
      exact ⟨c, eq ▸ hc, peer, state, fun none _ => quiet none⟩
    · exact ⟨d', hd', rfl, rfl, fun _ => id⟩
  have forth : ∀ q d, k.chans q = some d → ∃ d', (k.setChan p (some c')).chans q = some d' ∧
      d'.peer = d.peer ∧ d'.state = d.state := by
    intro q d hd
    by_cases eq : q = p
    · subst eq
      rw [hc] at hd
      cases hd
      exact ⟨c', setChan_chans_same k q _, peer, state⟩
    · exact ⟨d, by rw [setChan_chans_ne k eq, hd], rfl, rfl⟩
  intro q d' hd'
  obtain ⟨d, hd, peer_eq, state_eq, waiters⟩ := back q d' hd'
  unfold EndpointOk
  cases hp : d.peer with
  | none =>
    obtain ⟨closed, none_⟩ := h.unlinked hd hp
    rw [peer_eq, hp, state_eq]
    exact ⟨closed, waiters hp none_⟩
  | some r =>
    obtain ⟨ne, open_, e, he, link, open'⟩ := h.linked hd hp
    obtain ⟨e', he', peer', state'⟩ := forth r e he
    rw [peer_eq, hp, state_eq]
    exact ⟨ne, open_, e', he', peer'.trans link, state'.trans open'⟩

/-- Some endpoints are closed or released, and nobody else was linked with them. -/
theorem Paired.shut (h : k.Paired) (S : Set Nat)
    (dead : ∀ r ∈ S, ∀ c, k'.chans r = some c →
      c.peer = none ∧ c.state = .closed ∧ c.waiters = [])
    (same : ∀ r, r ∉ S → k'.chans r = k.chans r)
    (apart : ∀ r c q, r ∉ S → k.chans r = some c → c.peer = some q → q ∉ S) : k'.Paired := by
  intro r c hc
  by_cases mem : r ∈ S
  · obtain ⟨peer, rest⟩ := dead r mem c hc
    rw [EndpointOk, peer]
    exact rest
  · rw [same r mem] at hc
    cases peer : c.peer with
    | none =>
      rw [EndpointOk, peer]
      exact h.unlinked hc peer
    | some q =>
      obtain ⟨ne, open_, d, hd, back, open'⟩ := h.linked hc peer
      rw [EndpointOk, peer]
      exact ⟨ne, open_, d, by rw [same q (apart r c q mem hc peer), hd], back, open'⟩

/-- The other endpoints are not linked with a pair. -/
theorem Paired.apart (h : k.Paired) (hc : k.chans p = some c) {r : Nat} (hd : k.chans r = some d)
    (back : d.peer = some q) (ne : c.peer ≠ some r) : q ≠ p := by
  rintro rfl
  obtain ⟨_, _, e, he, link, _⟩ := h.linked hd back
  rw [hc] at he
  cases he
  exact ne link

theorem shut_waiters (c : Channel) : c.shut.waiters = [] := by
  simp [Channel.waiters, Channel.shut, Slots.empty, List.zip_replicate', List.flatMap_replicate]

/-- The state after `Channel::close`. -/
theorem closeChannel_state (h : k.Paired) (hc : k.chans p = some c) :
    ∃ k', closeChannel p k = .ok () k' ∧ k'.chans p = some c.shut ∧
      (∀ q d, c.peer = some q → k.chans q = some d → k'.chans q = some d.shut) ∧
      ∀ r, r ≠ p → c.peer ≠ some r → k'.chans r = k.chans r := by
  cases peer : c.peer with
  | none =>
    refine ⟨_, by simp [closeChannel, Prog.bind_apply, deref, hc, shutEndpoint, peer]; rfl, ?_, ?_, ?_⟩
    · simp
    · intro q d bad
      cases bad
    · intro r ne _
      simp [setChan_chans_ne _ ne]
  | some q =>
    obtain ⟨ne, _, d, hd, _, _⟩ := h.linked hc peer
    refine ⟨_, by simp [closeChannel, Prog.bind_apply, deref, hc, shutEndpoint, peer,
      setChan_chans_ne _ ne, hd]; rfl, ?_, ?_, ?_⟩
    · rw [wakeAll_chans, setChan_chans_ne _ (Ne.symm ne), wakeAll_chans, setChan_chans_same]
    · intro q' d' eq hd'
      cases eq
      rw [hd] at hd'
      cases hd'
      rw [wakeAll_chans, setChan_chans_same]
    · intro r ne₁ ne₂
      have ne₃ : r ≠ q := fun eq => ne₂ (eq ▸ rfl)
      rw [wakeAll_chans, setChan_chans_ne _ ne₃, wakeAll_chans, setChan_chans_ne _ ne₁]

/-- Closing an endpoint, and then releasing it or not. -/
theorem Paired.close (h : k.Paired) (hc : k.chans p = some c) {k₁ : Kernel}
    (own : k'.chans p = none ∨ k'.chans p = some c.shut)
    (ran : closeChannel p k = .ok () k₁) (same : ∀ r, r ≠ p → k'.chans r = k₁.chans r) :
    k'.Paired := by
  obtain ⟨k₂, ran₂, _, other, rest⟩ := closeChannel_state h hc
  rw [ran] at ran₂
  cases ran₂
  have closed : ∀ e : Channel, e.shut.peer = none ∧ e.shut.state = .closed ∧ e.shut.waiters = [] :=
    fun e => ⟨rfl, rfl, shut_waiters e⟩
  refine h.shut (fun r => r = p ∨ c.peer = some r) (fun r mem d hd => ?_) (fun r out => ?_)
    fun r d q out hd peer mem => ?_
  · rcases mem with rfl | peer
    · rcases own with none_ | shut_
      · rw [none_] at hd
        cases hd
      · rw [shut_] at hd
        cases hd
        exact closed c
    · obtain ⟨ne, _, e, he, _, _⟩ := h.linked hc peer
      rw [same r ne, other r e peer he] at hd
      cases hd
      exact closed e
  · have ne : r ≠ p := fun eq => out (Or.inl eq)
    rw [same r ne, rest r ne fun peer => out (Or.inr peer)]
  · rcases mem with rfl | peer'
    · exact h.apart hc hd peer (fun link => out (Or.inr link)) rfl
    · obtain ⟨_, _, e, he, link, _⟩ := h.linked hc peer'
      refine h.apart he hd peer (fun back => ?_) rfl
      rw [link] at back
      cases back
      exact out (Or.inl rfl)

theorem keeps_close (p : Nat) : Prog.Within Keeps (closeChannel p) := by
  intro k h
  cases hc : k.chans p with
  | none =>
    have stuck : closeChannel p k = .fault k := by simp [closeChannel, deref, hc]
    rwa [stuck]
  | some c =>
    obtain ⟨k', ran, own, _⟩ := closeChannel_state h hc
    rw [ran]
    exact h.close hc (Or.inr own) ran fun _ _ => rfl

theorem keeps_drop (p : Nat) : Prog.Within Keeps (dropObject (.channel p)) := by
  intro k h
  cases hc : k.chans p with
  | none =>
    have stuck : dropObject (.channel p) k = .fault k := by
      simp [dropObject, closeChannel, deref, hc]
    rwa [stuck]
  | some c =>
    obtain ⟨k', ran, own, _⟩ := closeChannel_state h hc
    have whole : dropObject (.channel p) k = .ok () (k'.setChan p none) := by
      rw [dropObject, Prog.bind_ok ran]
      rfl
    rw [whole]
    exact h.close hc (Or.inl (setChan_chans_same k' p none)) ran fun r ne => setChan_chans_ne k' ne none

theorem keeps_handles : HandleFrame Keeps where
  counter _ _ := keeps_of_chans rfl
  table _ _ _ := keeps_of_chans rfl
  mm _ _ := keeps_of_chans rfl
  drop := keeps_drop

/-! ## Calls -/

section Calls

variable {cur self : Nat} {data : List UInt8} {hs : List Nat}

/-- Routines that touch no endpoint. -/
theorem keeps_modify {f : Kernel → Kernel} (h : ∀ k, (f k).chans = k.chans) :
    Prog.Within Keeps (Prog.modify f : KernelM Unit) := fun k => keeps_of_chans (h k)

theorem keeps_sendTo (w : Thread) : Prog.Within Keeps (sendTo cur w data hs) := by
  refine (keeps_modify (by intro; rfl)).bind fun _ => ?_
  refine (keeps_handles.calls.passHandles (fun _ _ _ => keeps_of_chans rfl) hs).bind fun _ => ?_
  exact (keeps_modify (answerWaiter_chans _ _)).bind fun _ => .pure _

theorem keeps_finishRead (n : Nat) (buf : List UInt8) :
    Prog.Within Keeps (finishRead cur n buf hs) := by
  refine (within_currentThread cur).bind fun _ => ?_
  exact (keeps_modify (by intro; rfl)).bind fun _ => .pure _

theorem keeps_receiveFrom (w : Thread) : Prog.Within Keeps (receiveFrom cur w data hs) := by
  refine (keeps_handles.calls.collectHandles (fun _ _ _ => keeps_of_chans rfl)
    fun _ _ _ => keeps_of_chans rfl).bind fun _ => ?_
  exact (keeps_modify (answerWaiter_chans _ _)).bind fun _ => keeps_finishRead _ _

theorem push_same {side : Side} {tid : Nat} (push : side.push c tid = some c') :
    c'.peer = c.peer ∧ c'.state = c.state := by
  cases side with
  | send =>
    obtain ⟨w, _, rfl⟩ := Option.map_eq_some_iff.mp push
    exact ⟨rfl, rfl⟩
  | recv =>
    obtain ⟨w, _, rfl⟩ := Option.map_eq_some_iff.mp push
    exact ⟨rfl, rfl⟩

theorem pop_same {side : Side} {tid : Nat} (pop : side.pop c = some (tid, c')) :
    c'.peer = c.peer ∧ c'.state = c.state := by
  cases side with
  | send =>
    obtain ⟨w, _, eq⟩ := Option.map_eq_some_iff.mp pop
    cases eq
    exact ⟨rfl, rfl⟩
  | recv =>
    obtain ⟨w, _, eq⟩ := Option.map_eq_some_iff.mp pop
    cases eq
    exact ⟨rfl, rfl⟩

/-- A thread joins a line of a linked endpoint. -/
theorem Paired.enqueue {side : Side} {call : Call} (h : k.Paired) (hc : k.chans self = some c)
    (link : c.peer ≠ none) (push : side.push c cur = some c') :
    (enqueue cur self c' call k).Paired := by
  obtain ⟨peer, state⟩ := push_same push
  exact keeps_of_chans rfl (h.requeue hc peer state fun none_ => absurd none_ link)

theorem waitReceiver_paired {call : Call} (h : k.Paired) (hc : k.chans self = some c)
    (link : c.peer ≠ none) : (waitReceiver cur self call k).state.Paired := by
  rw [waitReceiver, Prog.bind_ok (show deref self k = .ok c k by simp [deref, hc])]
  cases push : c.pushReceiver cur with
  | none => exact keeps_of_chans rfl h
  | some c' => exact h.enqueue hc link (show Side.recv.push c cur = some c' from push)

/-- A call keeps the links if both its ways do. -/
theorem meet_paired {side : Side} {serve : Thread → KernelM CallResult} {wait : KernelM CallResult}
    (h : k.Paired) (served : ∀ w, Prog.Within Keeps (serve w))
    (waited : ∀ k' c q, k'.Paired → k'.thread? = k.thread? → k.served side self = none →
      k.chans self = some c → k'.chans self = some c → c.peer = some q →
      (wait k').state.Paired) :
    (meet side cur self serve wait k).state.Paired := by
  cases hc : k.chans self with
  | none => simpa [meet, Prog.bind_apply, deref, hc] using h
  | some c =>
    by_cases closed : c.state = .closed
    · simpa [meet, Prog.bind_apply, deref, hc, closed] using h
    · cases ht : k.thread? cur with
      | none => simpa [meet, Prog.bind_apply, deref, hc, closed, currentThread, ht] using h
      | some t =>
        cases peer : c.peer with
        | none => simpa [meet, Prog.bind_apply, deref, hc, closed, currentThread, ht, peer] using h
        | some q =>
          obtain ⟨ne, _, d, hd, back, _⟩ := h.linked hc peer
          cases pop : side.pop d with
          | none =>
            rw [meet_wait hc closed ht peer hd pop]
            exact waited k c q h rfl (by simp [Kernel.served, hc, closed, peer, hd, pop]) hc hc peer
          | some r =>
            obtain ⟨tid, d'⟩ := r
            obtain ⟨peer', state'⟩ := pop_same pop
            have popped : (k.setChan q (some d')).Paired :=
              h.requeue hd peer' state' fun none_ => by rw [back] at none_; cases none_
            cases hw : k.thread? tid with
            | none =>
              -- the thread is gone, but it has been taken out of its line
              have skipped : meet side cur self serve wait k = wait (k.setChan q (some d')) := by
                simp [meet, Prog.bind_apply, deref, hc, closed, currentThread, ht, peer, takeWaiter,
                  hd, pop, hw]
              rw [skipped]
              refine waited _ c q popped rfl (by simp [Kernel.served, hc, closed, peer, hd, pop, hw])
                hc ?_ peer
              rw [setChan_chans_ne k (Ne.symm ne), hc]
            | some w =>
              rw [meet_serve hc closed ht peer hd pop hw]
              exact served w _ popped

theorem read_paired (h : k.Paired) : (channelRead cur self data hs k).state.Paired := by
  refine meet_paired h (fun w => keeps_receiveFrom w) fun k' c q paired _ _ _ hc peer => ?_
  have blocked : (k'.modifyThread cur fun t => (t.block data).clearMailbox).Paired :=
    keeps_of_chans rfl paired
  exact waitReceiver_paired blocked hc (by simp [peer])

theorem readWithTimeout_paired {ms : Nat} (h : k.Paired) :
    (channelReadWithTimeout cur self data hs ms k).state.Paired := by
  refine meet_paired h (fun w => keeps_receiveFrom w) fun k' c q paired _ _ _ hc peer => ?_
  have blocked : (k'.modifyThread cur (·.block data)).Paired := keeps_of_chans rfl paired
  exact waitReceiver_paired blocked hc (by simp [peer])

theorem removeReceiver_same (c : Channel) (tid : Nat) :
    (c.removeReceiver tid).peer = c.peer ∧ (c.removeReceiver tid).state = c.state := by
  unfold Channel.removeReceiver
  split <;> exact ⟨rfl, rfl⟩

theorem waiters_nil_iff : c.waiters = [] ↔ ∀ side : Side, (side.queue c).occupants = [] := by
  simp only [List.eq_nil_iff_forall_not_mem, Side.mem_waiters]
  constructor
  · exact fun h side tid mem => h tid ⟨side, mem⟩
  · exact fun h tid ⟨side, mem⟩ => h side tid mem

theorem removeReceiver_quiet (h : c.waiters = []) (tid : Nat) : (c.removeReceiver tid).waiters = [] := by
  rw [waiters_nil_iff] at h ⊢
  intro side
  cases side with
  | send =>
    rw [Side.queue, c.removeReceiver_send]
    exact h .send
  | recv =>
    have sub := (c.removeReceiver_recv tid).1
    have empty : c.recvWaiters.occupants = [] := h .recv
    rw [empty] at sub
    exact List.subperm_nil.mp sub

theorem resume_paired (h : k.Paired) : (resume cur k).state.Paired := by
  have woken : (wakeUp cur k).Paired := keeps_of_chans rfl h
  cases ht : k.thread? cur with
  | none => simpa [resume, Prog.bind_apply, currentThread, ht] using h
  | some t =>
    cases hcall : t.call with
    | none => simpa [resume, Prog.bind_apply, currentThread, ht, hcall] using woken
    | some call =>
      cases call with
      | write p => simpa [resume_write ht hcall] using woken
      | read p hs =>
        rw [resume_read ht hcall]
        exact keeps_of_chans rfl woken
      | readWithTimeout p hs dl =>
        rw [resume_readWithTimeout ht hcall]
        by_cases late : dl.any ((wakeUp cur k).ticks ≥ ·)
        · cases hp : (wakeUp cur k).chans p with
          | none => simpa [finishTimedRead, Prog.bind_apply, late, deref, hp] using woken
          | some c =>
            obtain ⟨peer, state⟩ := removeReceiver_same c cur
            have left : ((wakeUp cur k).setChan p (some (c.removeReceiver cur))).Paired :=
              woken.requeue hp peer state fun none_ =>
                removeReceiver_quiet (woken.unlinked hp none_).2 cur
            have gave : (((wakeUp cur k).setChan p (some (c.removeReceiver cur))).modifyThread cur
              (·.giveUp)).Paired := keeps_of_chans rfl left
            simpa [finishTimedRead, Prog.bind_apply, late, deref, hp] using gave
        · simpa [finishTimedRead, Prog.bind_apply, late] using
            keeps_finishRead t.ipcActualLen t.ipcBuf (wakeUp cur k) woken

end Calls

end Kernel

end CapsuleOS
