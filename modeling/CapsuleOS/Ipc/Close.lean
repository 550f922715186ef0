import CapsuleOS.Ipc.Channel

/-!
# Closing a channel under waiting threads

`close` wakes every thread that waits on either endpoint and leaves it to the resumed call to find
out. The resumed call looks at the thread's own fields only, and these do not tell a close from a
delivery: it returns a length, never `PeerClosed`, and its stash stays where it is.
-/
namespace CapsuleOS

open Lib

namespace Kernel

/-- `tid` is queued on the endpoint `p`, to send or to receive. -/
def WaitsOn (k : Kernel) (p tid : Nat) : Prop := ∃ c, k.chans p = some c ∧ tid ∈ c.waiters

/-- Every thread queued on `p` stands in the call that queued it. -/
structure Suspended (k : Kernel) (p : Nat) : Prop where
  sender : ∀ c tid, k.chans p = some c → tid ∈ c.sendWaiters.occupants →
    ∃ t, k.thread? tid = some t ∧ t.state = .blocked ∧ t.call = some (.write p)
  receiver : ∀ c tid, k.chans p = some c → tid ∈ c.recvWaiters.occupants →
    ∃ t, k.thread? tid = some t ∧ t.state = .blocked ∧
      ((∃ hs, t.call = some (.read p hs)) ∨ ∃ hs dl, t.call = some (.readWithTimeout p hs dl))

/-- An endpoint and its peer, both live. -/
structure Pair (k : Kernel) (p q : Nat) (c d : Channel) : Prop where
  ne : p ≠ q
  left : k.chans p = some c
  right : k.chans q = some d
  peer : c.peer = some q

/-- The state after `close`. -/
def afterClose (k : Kernel) (p q : Nat) (c d : Channel) : Kernel :=
  (((k.setChan p (some c.shut)).wakeAll c.waiters).setChan q (some d.shut)).wakeAll d.waiters

variable {k : Kernel} {p q : Nat} {c d : Channel}

theorem closeChannel_pair (h : Pair k p q c d) :
    closeChannel p k = .ok () (afterClose k p q c d) := by
  have right : ((k.setChan p (some c.shut)).wakeAll c.waiters).chans q = some d := by
    rw [wakeAll_chans, setChan_chans_ne _ (Ne.symm h.ne), h.right]
  simp [closeChannel, Prog.bind_apply, deref, h.left, shutEndpoint, h.peer, right, afterClose]

theorem afterClose_thread? (k : Kernel) (p q : Nat) (c d : Channel) (tid : Nat) :
    (afterClose k p q c d).thread? tid =
      if tid ∈ c.waiters ∨ tid ∈ d.waiters then (k.thread? tid).map Thread.wake
      else k.thread? tid := by
  rw [afterClose, thread?_wakeAll, setChan_thread?, thread?_wakeAll, setChan_thread?]
  by_cases hc : tid ∈ c.waiters <;> by_cases hd : tid ∈ d.waiters <;>
    simp [hc, hd, Option.map_map, Function.comp_def, Thread.wake_wake]

/-- A waiting thread after the close: woken, still in its call. -/
theorem waiting_after_close (h : Pair k p q c d) (hp : Suspended k p) (hq : Suspended k q)
    {tid : Nat} (waits : WaitsOn k p tid ∨ WaitsOn k q tid) :
    ∃ t, (afterClose k p q c d).thread? tid = some t ∧
      ((∃ r, t.call = some (.write r)) ∨ (∃ r hs, t.call = some (.read r hs)) ∨
        ∃ r hs dl, t.call = some (.readWithTimeout r hs dl) ∧ (r = p ∨ r = q)) := by
  have queued : tid ∈ c.waiters ∨ tid ∈ d.waiters := by
    rcases waits with ⟨c', hc', mem⟩ | ⟨d', hd', mem⟩
    · rw [h.left] at hc'; cases hc'; exact Or.inl mem
    · rw [h.right] at hd'; cases hd'; exact Or.inr mem
  have frame : ∃ t, k.thread? tid = some t ∧
      ((∃ r, t.call = some (.write r)) ∨ (∃ r hs, t.call = some (.read r hs)) ∨
        ∃ r hs dl, t.call = some (.readWithTimeout r hs dl) ∧ (r = p ∨ r = q)) := by
    rcases queued with mem | mem <;> rcases Channel.mem_waiters.mp mem with mem | mem
    · obtain ⟨t, ht, _, call⟩ := hp.sender c tid h.left mem
      exact ⟨t, ht, Or.inl ⟨_, call⟩⟩
    · obtain ⟨t, ht, _, ⟨hs, call⟩ | ⟨hs, dl, call⟩⟩ := hp.receiver c tid h.left mem
      · exact ⟨t, ht, Or.inr (Or.inl ⟨_, _, call⟩)⟩
      · exact ⟨t, ht, Or.inr (Or.inr ⟨_, _, _, call, Or.inl rfl⟩)⟩
    · obtain ⟨t, ht, _, call⟩ := hq.sender d tid h.right mem
      exact ⟨t, ht, Or.inl ⟨_, call⟩⟩
    · obtain ⟨t, ht, _, ⟨hs, call⟩ | ⟨hs, dl, call⟩⟩ := hq.receiver d tid h.right mem
      · exact ⟨t, ht, Or.inr (Or.inl ⟨_, _, call⟩)⟩
      · exact ⟨t, ht, Or.inr (Or.inr ⟨_, _, _, call, Or.inr rfl⟩)⟩
  obtain ⟨t, ht, call⟩ := frame
  refine ⟨t.wake, by rw [afterClose_thread?, if_pos queued, ht]; rfl, ?_⟩
  have same : t.wake.call = t.call := by unfold Thread.wake; split <;> rfl
  rwa [same]

/-! ## The resumed calls -/

/-- A resumed channel call fails only by a timeout of its own. -/
theorem resume_err {cur : Nat} {t : Thread} (h : k.thread? cur = some t) (call : t.call ≠ none)
    {e : Status} {k' : Kernel} (err : resume cur k = .err e k') : e = .timedOut := by
  cases hcall : t.call with
  | none => exact absurd hcall call
  | some frame =>
    cases frame with
    | write r => rw [resume_write h hcall] at err; cases err
    | read r hs => rw [resume_read h hcall] at err; cases err
    | readWithTimeout r hs dl =>
      rw [resume_readWithTimeout h hcall, finishTimedRead, Prog.bind_apply, Prog.get_apply] at err
      simp only at err
      split_ifs at err with late
      · rw [Prog.bind_apply, deref] at err
        cases hr : (wakeUp cur k).chans r with
        | none => simp [hr] at err
        | some c' =>
          simp only [hr, Prog.bind_apply, Prog.modify_apply, Prog.throw_apply] at err
          cases err
          rfl
      · rw [finishRead_ok (wakeUp_thread? h)] at err
        cases err

/-- What an undelivered write had stashed is in the table of its thread. -/
def StashRestored (k k' : Kernel) (tid : Nat) : Prop :=
  ∀ t r tab, k.thread? tid = some t → t.call = some (.write r) → t.handleTable = some tab →
    ∀ o rights, some (o, rights) ∈ t.ipcTransferSlots →
      ∃ s ∈ (k'.tables tab).occupants, s.object = o ∧ s.rights = rights

/-- Every call that waited on either endpoint in `k` fails with `PeerClosed` when it is resumed in
`k'`, with its stash restored. -/
def WaitersFail (k k' : Kernel) (p q : Nat) : Prop :=
  ∀ tid, WaitsOn k p tid ∨ WaitsOn k q tid →
    ∃ k'', resume tid k' = .err .peerClosed k'' ∧ StashRestored k k'' tid

/-- A waiting call is not failed. -/
theorem not_waitersFail (tid : Nat) (h : Pair k p q c d) (hp : Suspended k p) (hq : Suspended k q)
    (waits : WaitsOn k p tid ∨ WaitsOn k q tid) : ¬ WaitersFail k (afterClose k p q c d) p q := by
  intro fails
  obtain ⟨k'', err, _⟩ := fails tid waits
  obtain ⟨t, ht, call⟩ := waiting_after_close h hp hq waits
  have busy : t.call ≠ none := by
    rcases call with ⟨_, call⟩ | ⟨_, _, call⟩ | ⟨_, _, _, call, _⟩ <;> simp [call]
  have := resume_err ht busy err
  cases this

end Kernel

/-- Closing an endpoint fails the calls that wait on the pair exactly when there are none. -/
theorem close_fails_waiters_iff {k : Kernel} {p q : Nat} {c d : Channel} (h : k.Pair p q c d)
    (hp : k.Suspended p) (hq : k.Suspended q) :
    ∃ k', Kernel.closeChannel p k = .ok () k' ∧
      (Kernel.WaitersFail k k' p q ↔ ∀ tid, ¬ k.WaitsOn p tid ∧ ¬ k.WaitsOn q tid) := by
  refine ⟨_, Kernel.closeChannel_pair h, ?_, ?_⟩
  · intro fails tid
    by_contra waiting
    exact Kernel.not_waitersFail tid h hp hq (by tauto) fails
  · rintro idle tid (waits | waits)
    · exact absurd waits (idle tid).1
    · exact absurd waits (idle tid).2

namespace Kernel

/-- The first thread of the small machine has blocked in a write that carries its only handle. -/
def demoBlocked : Kernel := (channelWrite 1 100 [7] [5] (demo (.port 9))).state

def demoLeft : Channel :=
  { Channel.fresh 1 with
    peer := some 200
    sendWaiters := ⟨some 1 :: List.replicate 7 none, rfl⟩ }

def demoRight : Channel := { Channel.fresh 2 with peer := some 100 }

theorem demoBlocked_pair : demoBlocked.Pair 200 100 demoRight demoLeft :=
  ⟨by decide, rfl, rfl, rfl⟩

theorem demoBlocked_left : demoBlocked.Suspended 100 where
  sender c tid hc mem := by
    have hc' : c = demoLeft := Option.some.inj (hc.symm.trans demoBlocked_pair.right)
    subst hc'
    have : tid = 1 := by simpa [demoLeft, Slots.occupants, Cells.occupants] using mem
    subst this
    exact ⟨_, rfl, rfl, rfl⟩
  receiver c tid hc mem := by
    have hc' : c = demoLeft := Option.some.inj (hc.symm.trans demoBlocked_pair.right)
    subst hc'
    simp [demoLeft, Channel.fresh] at mem

theorem demoBlocked_right : demoBlocked.Suspended 200 where
  sender c tid hc mem := by
    have hc' : c = demoRight := Option.some.inj (hc.symm.trans demoBlocked_pair.left)
    subst hc'
    simp [demoRight, Channel.fresh] at mem
  receiver c tid hc mem := by
    have hc' : c = demoRight := Option.some.inj (hc.symm.trans demoBlocked_pair.left)
    subst hc'
    simp [demoRight, Channel.fresh] at mem

end Kernel

/-- The close under the blocked write of the small machine. -/
theorem close_fails_waiters_iff_demo :
    ∃ k', Kernel.closeChannel 200 Kernel.demoBlocked = .ok () k' ∧
      (Kernel.WaitersFail Kernel.demoBlocked k' 200 100 ↔
        ∀ tid, ¬ Kernel.demoBlocked.WaitsOn 200 tid ∧ ¬ Kernel.demoBlocked.WaitsOn 100 tid) :=
  close_fails_waiters_iff Kernel.demoBlocked_pair Kernel.demoBlocked_right Kernel.demoBlocked_left

/-- There the write, resumed after the peer has been closed, reports success with length zero, and
the handle it carried is in no table. -/
theorem close_strands_blocked_write :
    ∃ k', Kernel.closeChannel 200 Kernel.demoBlocked = .ok () k' ∧
      Kernel.demoBlocked.WaitsOn 100 1 ∧ ¬ Kernel.WaitersFail Kernel.demoBlocked k' 200 100 ∧
      ∃ k'', Kernel.resume 1 k' = .ok (.wrote 0) k'' ∧ (k''.tables 1).occupants = [] := by
  have waits : Kernel.demoBlocked.WaitsOn 100 1 :=
    ⟨Kernel.demoLeft, Kernel.demoBlocked_pair.right, by decide⟩
  exact ⟨_, Kernel.closeChannel_pair Kernel.demoBlocked_pair, waits,
    Kernel.not_waitersFail 1 Kernel.demoBlocked_pair Kernel.demoBlocked_right
      Kernel.demoBlocked_left (Or.inr waits), _, rfl, rfl⟩

end CapsuleOS
