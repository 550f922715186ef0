import CapsuleOS.Ipc.Channel

/-!
# Frames of the handle routines

Handle transfer runs the table routines many times and in many orders, but each of them is built
from a few calls of the handle table. `HandleCalls R` says that these stay within `R`; every routine
then does. For most relations it is enough to look at the updates that the calls are made of
(`HandleFrame R`). The channel results use both with different relations.
-/
namespace CapsuleOS

open Lib

namespace Kernel

/-- The primitive effects of the table routines stay within `R`. -/
structure HandleFrame (R : Kernel → Kernel → Prop) : Prop where
  counter : ∀ k n, R k { k with handleValueCounter := n }
  table : ∀ k tab t, R k (k.setTable tab t)
  mm : ∀ k mm, R k { k with mm }
  drop : ∀ p, Prog.Within R (dropObject (.channel p))

/-- Dropping an endpoint closes it and releases its block. -/
theorem within_drop {R : Kernel → Kernel → Prop} [IsTrans Kernel R]
    (close : ∀ p, Prog.Within R (closeChannel p)) (free : ∀ k p, R k (k.setChan p none)) (p : Nat) :
    Prog.Within R (dropObject (.channel p)) := (close p).bind fun _ => .modify fun k => free k p

/-- The calls of the handle table stay within `R`. -/
structure HandleCalls (R : Kernel → Kernel → Prop) : Prop where
  add : ∀ tab o rights, Prog.Within R (addHandle tab o rights)
  duplicate : ∀ tab hv required, Prog.Within R (duplicateHandle tab hv required)
  remove : ∀ tab hv, Prog.Within R (removeWithRights tab hv)
  drop : ∀ o, Prog.Within R (dropObject o)

section HandleFrame

variable {R : Kernel → Kernel → Prop} [Std.Refl R] [IsTrans Kernel R]

omit [Std.Refl R] [IsTrans Kernel R] in
theorem HandleFrame.onMm (h : HandleFrame R) {α : Type} (m : MmM α) :
    Prog.Within R (Kernel.onMm m) := by
  intro k
  unfold Kernel.onMm Prog.zoom
  split <;> exact h.mm k _

omit [IsTrans Kernel R] in
theorem HandleFrame.dropObject (h : HandleFrame R) (o : KernelObject) :
    Prog.Within R (dropObject o) := by
  cases o with
  | vmo v => exact h.onMm _
  | vmar r => exact h.onMm _
  | channel p => exact h.drop p
  | port _ => exact .pure ()
  | process _ => exact .pure ()
  | thread _ => exact .pure ()

theorem HandleFrame.putSlot (h : HandleFrame R) (tab : Nat) (s : HandleSlot) :
    Prog.Within R (putSlot tab s) := by
  intro k
  unfold Kernel.putSlot
  split
  · exact h.table k tab _
  · exact ((h.dropObject s.object).bind fun _ => .throw _) k

theorem HandleFrame.addHandle (h : HandleFrame R) (tab : Nat) (o : KernelObject) (rights : Nat) :
    Prog.Within R (addHandle tab o rights) := by
  have next : Prog.Within R nextHandleValue := fun k => h.counter k _
  exact next.bind fun hv => (h.putSlot tab _).bind fun _ => .pure hv

omit [IsTrans Kernel R] in
theorem within_findSlot (tab hv required : Nat) : Prog.Within R (findSlot tab hv required) := by
  intro k
  unfold findSlot
  split
  · exact Std.Refl.refl k
  · split <;> exact Std.Refl.refl k

theorem HandleFrame.duplicateHandle (h : HandleFrame R) (tab hv required : Nat) :
    Prog.Within R (duplicateHandle tab hv required) := by
  refine (within_findSlot tab hv required).bind fun s => ?_
  cases duplicateObject s.object with
  | ok o => exact h.addHandle tab o s.rights
  | error e => exact .throw e

omit [IsTrans Kernel R] in
theorem HandleFrame.removeWithRights (h : HandleFrame R) (tab hv : Nat) :
    Prog.Within R (removeWithRights tab hv) := by
  intro k
  unfold Kernel.removeWithRights
  split
  · exact Std.Refl.refl k
  · exact h.table k tab _

theorem HandleFrame.calls (h : HandleFrame R) : HandleCalls R :=
  ⟨h.addHandle, h.duplicateHandle, h.removeWithRights, h.dropObject⟩

theorem HandleCalls.takeHandle (h : HandleCalls R) (tab hv : Nat) :
    Prog.Within R (takeHandle tab hv) := by
  refine (h.duplicate tab hv 0).attempt.bind fun r => ?_
  refine (h.remove tab _).attempt.bind fun r => ?_
  cases r with
  | ok o => exact .pure _
  | error e => exact .pure _

theorem HandleCalls.injectHandles (h : HandleCalls R) {receiver : Nat}
    (put : ∀ k i hv, R k (deliver receiver i hv k)) (tab rtab : Nat) (hs : List Nat) (hIdx : Nat) :
    Prog.Within R (injectHandles tab rtab receiver hs hIdx) := by
  induction hs generalizing hIdx with
  | nil => exact .pure ()
  | cons hd hs ih =>
    refine (h.takeHandle tab hd).bind fun r => ?_
    cases r with
    | none => exact ih hIdx
    | some o =>
      refine (h.add rtab o.1 o.2).attempt.bind fun r => ?_
      cases r with
      | ok hv => exact (Prog.Within.modify fun k => put k hIdx hv).bind fun _ => ih (hIdx + 1)
      | error e => exact ih hIdx

theorem HandleCalls.stashHandles (h : HandleCalls R) {cur : Nat}
    (put : ∀ k i o, R k (setStash cur i o k)) (tab : Nat) (hs : List Nat) (hIdx : Nat) :
    Prog.Within R (stashHandles tab cur hs hIdx) := by
  induction hs generalizing hIdx with
  | nil => exact .pure ()
  | cons hd hs ih =>
    refine (h.takeHandle tab hd).bind fun r => ?_
    cases r with
    | none => exact ih hIdx
    | some o => exact (Prog.Within.modify fun k => put k hIdx (some o)).bind fun _ => ih (hIdx + 1)

theorem HandleCalls.receiveStash (h : HandleCalls R) {cur sender : Nat}
    (put : ∀ k i hv, R k (deliver cur i hv k)) (empty : ∀ k i o, R k (setStash sender i o k))
    (tab : Nat) (is : List Nat) (hIdx : Nat) :
    Prog.Within R (receiveStash tab cur sender is hIdx) := by
  induction is generalizing hIdx with
  | nil => exact .pure ()
  | cons i is ih =>
    refine Prog.Within.get.bind fun k => ?_
    cases k.stashed sender i with
    | none => exact ih hIdx
    | some o =>
      refine (Prog.Within.modify fun k => empty k i none).bind fun _ => ?_
      refine (h.add tab o.1 o.2).attempt.bind fun r => ?_
      cases r with
      | ok hv => exact (Prog.Within.modify fun k => put k hIdx hv).bind fun _ => ih (hIdx + 1)
      | error e => exact ih hIdx

theorem HandleCalls.clearStash (h : HandleCalls R) {cur : Nat}
    (empty : ∀ k i o, R k (setStash cur i o k)) (is : List Nat) :
    Prog.Within R (clearStash cur is) := by
  induction is with
  | nil => exact .pure ()
  | cons i is ih =>
    refine Prog.Within.get.bind fun k => ?_
    cases k.stashed cur i with
    | none => exact ih
    | some o =>
      exact (Prog.Within.modify fun k => empty k i none).bind fun _ =>
        (h.drop o.1).bind fun _ => ih

theorem HandleCalls.restoreStash (h : HandleCalls R) {cur : Nat}
    (empty : ∀ k i o, R k (setStash cur i o k)) (tab : Nat) (is : List Nat) :
    Prog.Within R (restoreStash tab cur is) := by
  induction is with
  | nil => exact .pure ()
  | cons i is ih =>
    refine Prog.Within.get.bind fun k => ?_
    cases k.stashed cur i with
    | none => exact ih
    | some o =>
      exact (Prog.Within.modify fun k => empty k i none).bind fun _ =>
        (h.add tab o.1 o.2).attempt.bind fun _ => ih

omit [IsTrans Kernel R] in
theorem within_currentThread (cur : Nat) : Prog.Within R (currentThread cur) := by
  intro k
  unfold currentThread
  split <;> exact Std.Refl.refl k

theorem HandleCalls.stashMessage (h : HandleCalls R) {cur : Nat}
    (put : ∀ k i o, R k (setStash cur i o k)) (hs : List Nat) :
    Prog.Within R (stashMessage cur hs) := by
  refine (h.clearStash put _).bind fun _ => (within_currentThread cur).bind fun t => ?_
  cases t.handleTable with
  | none => exact (Prog.Within.pure ()).bind fun _ => .pure _
  | some tab => exact (h.stashHandles put _ _ _).bind fun _ => .pure _

theorem HandleCalls.restoreMessage (h : HandleCalls R) {cur : Nat}
    (empty : ∀ k i o, R k (setStash cur i o k)) (tab : Option Nat) :
    Prog.Within R (restoreMessage cur tab) := by
  cases tab with
  | none => exact .pure ()
  | some tab => exact h.restoreStash empty _ _

theorem HandleCalls.collectHandles (h : HandleCalls R) {cur sender : Nat}
    (put : ∀ k i hv, R k (deliver cur i hv k)) (empty : ∀ k i o, R k (setStash sender i o k)) :
    Prog.Within R (collectHandles cur sender) := by
  refine (within_currentThread cur).bind fun t => ?_
  cases t.handleTable with
  | none => exact .pure ()
  | some tab => exact h.receiveStash put empty _ _ _

theorem HandleCalls.passHandles (h : HandleCalls R) {cur : Nat} {w : Thread}
    (put : ∀ k i hv, R k (deliver w.id i hv k)) (hs : List Nat) :
    Prog.Within R (passHandles cur w hs) := by
  refine (within_currentThread cur).bind fun t => ?_
  cases t.handleTable with
  | none => exact .pure ()
  | some tab =>
    cases w.handleTable with
    | none => exact .pure ()
    | some rtab => exact h.injectHandles put _ _ _ _

end HandleFrame

/-! ## Every channel call

The channel calls consist of calls of the handle table and of updates of threads, endpoints and waiting
lines. What all of these stay within, every call stays within. -/

section ChannelFrame

variable {R : Kernel → Kernel → Prop} [Std.Refl R] [IsTrans Kernel R]

omit [IsTrans Kernel R] in
theorem within_deref (p : Nat) : Prog.Within R (deref p) := by
  intro k
  unfold deref
  split <;> exact Std.Refl.refl k

theorem within_closeChannel (chan : ∀ k p c, R k (setChan k p c)) (wake : ∀ k tids, R k (wakeAll k tids))
    (p : Nat) : Prog.Within R (closeChannel p) := by
  have shut : ∀ p c, Prog.Within R (shutEndpoint p c) := fun p c =>
    .modify fun k => IsTrans.trans _ _ _ (chan k p _) (wake _ _)
  refine (within_deref p).bind fun c => (shut p c).bind fun _ => ?_
  cases c.peer with
  | none => exact .pure ()
  | some q => exact (within_deref q).bind fun d => shut q d

/-- What the channel calls are made of stays within `R`. -/
structure ChannelFrame (R : Kernel → Kernel → Prop) : Prop where
  calls : HandleCalls R
  thread : ∀ k tid f, R k (modifyThread k tid f)
  wake : ∀ k tids, R k (wakeAll k tids)
  chan : ∀ k p c, R k (setChan k p c)

namespace ChannelFrame

variable {cur self : Nat}

omit [Std.Refl R] in
theorem answerWaiter (h : ChannelFrame R) (w n : Nat) (k : Kernel) : R k (answerWaiter w n k) :=
  IsTrans.trans _ _ _ (h.thread k w _) (h.wake (k.modifyThread w _) [w])

omit [Std.Refl R] in
theorem enqueue (h : ChannelFrame R) (c : Channel) (call : Call) (k : Kernel) :
    R k (enqueue cur self c call k) := IsTrans.trans _ _ _ (h.chan k self _) (h.thread _ cur _)

theorem meet (h : ChannelFrame R) {side : Side} {serve : Thread → KernelM CallResult}
    {wait : KernelM CallResult} (hs : ∀ t, Prog.Within R (serve t)) (hw : Prog.Within R wait) :
    Prog.Within R (meet side cur self serve wait) := by
  have taken : ∀ q, Prog.Within R (takeWaiter side q) := by
    intro q
    refine (within_deref q).bind fun c => ?_
    cases side.pop c with
    | none => exact .pure _
    | some r =>
      exact (Prog.Within.modify fun k => h.chan k q _).bind fun _ => Prog.Within.get.bind fun _ => .pure _
  refine (within_deref self).bind fun c => ?_
  split_ifs
  · exact .throw _
  · refine (within_currentThread cur).bind fun _ => ?_
    cases c.peer with
    | none => exact .throw _
    | some q =>
      refine (taken q).bind fun w => ?_
      cases w with
      | none => exact hw
      | some w => exact hs w

theorem sendTo (h : ChannelFrame R) (w : Thread) (data : List UInt8) (hs : List Nat) :
    Prog.Within R (sendTo cur w data hs) :=
  (Prog.Within.modify fun k => h.thread k _ _).bind fun _ =>
    (h.calls.passHandles (fun k _ _ => h.thread k _ _) hs).bind fun _ =>
      (Prog.Within.modify (h.answerWaiter _ _)).bind fun _ => .pure _

theorem finishRead (h : ChannelFrame R) (n : Nat) (buf : List UInt8) (hs : List Nat) :
    Prog.Within R (finishRead cur n buf hs) :=
  (within_currentThread cur).bind fun _ =>
    (Prog.Within.modify fun k => h.thread k _ _).bind fun _ => .pure _

theorem receiveFrom (h : ChannelFrame R) (sender : Thread) (data : List UInt8) (hs : List Nat) :
    Prog.Within R (receiveFrom cur sender data hs) :=
  (h.calls.collectHandles (fun k _ _ => h.thread k _ _) (fun k _ _ => h.thread k _ _)).bind
    fun _ => (Prog.Within.modify (h.answerWaiter _ _)).bind fun _ => h.finishRead _ _ _

theorem waitReceiver (h : ChannelFrame R) (call : Call) :
    Prog.Within R (waitReceiver cur self call) := by
  refine (within_deref self).bind fun c => ?_
  cases c.pushReceiver cur with
  | none => exact (Prog.Within.modify fun k => h.thread k _ _).bind fun _ => .throw _
  | some c' => exact (Prog.Within.modify (h.enqueue _ _)).bind fun _ => .pure _

theorem waitSender (h : ChannelFrame R) (data : List UInt8) (hs : List Nat) :
    Prog.Within R (waitSender cur self data hs) := by
  refine (Prog.Within.modify fun k => h.thread k _ _).bind fun _ => ?_
  refine (h.calls.stashMessage (fun k _ _ => h.thread k _ _) hs).bind fun tab => ?_
  refine (within_deref self).bind fun c => ?_
  cases c.pushSender cur with
  | none =>
    exact (h.calls.restoreMessage (fun k _ _ => h.thread k _ _) tab).bind fun _ =>
      (Prog.Within.modify fun k => h.thread k _ _).bind fun _ => .throw _
  | some c' => exact (Prog.Within.modify (h.enqueue _ _)).bind fun _ => .pure _

theorem channelWrite (h : ChannelFrame R) (data : List UInt8) (hs : List Nat) :
    Prog.Within R (channelWrite cur self data hs) :=
  h.meet (fun _ => h.sendTo _ _ _) (h.waitSender _ _)

theorem channelRead (h : ChannelFrame R) (data : List UInt8) (hs : List Nat) :
    Prog.Within R (channelRead cur self data hs) := by
  refine h.meet (fun _ => h.receiveFrom _ _ _) ?_
  exact (Prog.Within.modify fun k => h.thread k _ _).bind fun _ => h.waitReceiver _

theorem channelReadWithTimeout (h : ChannelFrame R) (data : List UInt8) (hs : List Nat) (ms : Nat) :
    Prog.Within R (channelReadWithTimeout cur self data hs ms) := by
  refine h.meet (fun _ => h.receiveFrom _ _ _) ?_
  exact (Prog.Within.modify fun k => h.thread k _ _).bind fun _ =>
    Prog.Within.get.bind fun _ => h.waitReceiver _

theorem resume (h : ChannelFrame R) : Prog.Within R (resume cur) := by
  refine (within_currentThread cur).bind fun t => ?_
  refine (Prog.Within.modify fun k => h.thread k _ _).bind fun _ => ?_
  cases t.call with
  | none => exact .fault
  | some call =>
    cases call with
    | write _ => exact .pure _
    | read _ hs => exact h.finishRead _ _ _
    | readWithTimeout self hs deadline =>
      refine Prog.Within.get.bind fun k => ?_
      split_ifs
      · exact (within_deref self).bind fun _ => (Prog.Within.modify fun k =>
          IsTrans.trans _ _ _ (h.chan k _ _) (h.thread _ _ _)).bind fun _ => .throw _
      · exact h.finishRead _ _ _

end ChannelFrame

end ChannelFrame

/-! ## Threads up to their states -/

/-- Every thread is what it was, up to its state. -/
def Steady (k k' : Kernel) : Prop :=
  ∀ tid, (k'.thread? tid).map (·.setState .dead) = (k.thread? tid).map (·.setState .dead)

theorem Steady.find {k k' : Kernel} {tid : Nat} {t : Thread} (h : Steady k k')
    (ht : k.thread? tid = some t) : ∃ s, k'.thread? tid = some (t.setState s) := by
  have same := h tid
  rw [ht] at same
  cases ht' : k'.thread? tid with
  | none => rw [ht'] at same; cases same
  | some t' =>
    rw [ht'] at same
    have eq := Option.some.inj same
    refine ⟨t'.state, congrArg some ?_⟩
    have back := congrArg (·.setState t'.state) eq
    exact back

instance : Std.Refl Steady := ⟨fun _ _ => rfl⟩

instance : IsTrans Kernel Steady := ⟨fun _ _ _ h h' tid => (h' tid).trans (h tid)⟩

theorem steady_wakeAll (k : Kernel) (tids : List Nat) : Steady k (k.wakeAll tids) := by
  have wake_rest : ∀ t : Thread, t.wake.setState .dead = t.setState .dead := by
    intro t
    unfold Thread.wake
    split <;> rfl
  intro tid
  rw [thread?_wakeAll]
  split_ifs
  · simp [Option.map_map, Function.comp_def, wake_rest]
  · rfl

theorem steady_close (p : Nat) : Prog.Within Steady (closeChannel p) := by
  intro k
  rw [closeChannel, Prog.bind_apply, deref]
  cases h : k.chans p with
  | none => exact Std.Refl.refl k
  | some c =>
    simp only [Prog.bind_apply, shutEndpoint, Prog.modify_apply]
    have first : Steady k ((k.setChan p (some c.shut)).wakeAll c.waiters) :=
      steady_wakeAll (k.setChan p (some c.shut)) _
    cases hpeer : c.peer with
    | none => exact first
    | some q =>
      simp only [Prog.bind_apply, deref]
      cases hq : ((k.setChan p (some c.shut)).wakeAll c.waiters).chans q with
      | none => exact first
      | some d =>
        exact fun tid => (steady_wakeAll (((k.setChan p (some c.shut)).wakeAll c.waiters).setChan q
          (some d.shut)) d.waiters tid).trans (first tid)

theorem steady_handles : HandleFrame Steady where
  counter _ _ _ := rfl
  table _ _ _ _ := rfl
  mm _ _ _ := rfl
  drop := within_drop steady_close fun _ _ _ => rfl

/-! ## Errors

The transfer loops handle every error of the table routines themselves. -/

theorem noErr_deref (p : Nat) : Prog.NoErr (deref p) := by
  intro k e k' h
  unfold deref at h
  split at h <;> cases h

theorem deref_eq_ok {k k' : Kernel} {p : Nat} {c : Channel} (h : deref p k = .ok c k') :
    k.chans p = some c ∧ k' = k := by
  unfold deref at h
  split at h
  · rename_i found
    cases h
    exact ⟨found, rfl⟩
  · cases h

section WaitSender

variable {k k' : Kernel} {cur self : Nat} {data : List UInt8} {hs : List Nat}

/-- A write that waits and returns: it gives up with a result, or joins the line. -/
theorem waitSender_ok {res : CallResult} (ran : waitSender cur self data hs k = .ok res k') :
    ∃ tab k₂ c, stashMessage cur hs (k.modifyThread cur (·.block data)) = .ok tab k₂ ∧
      k₂.chans self = some c ∧
      ((c.pushSender cur = none ∧ abandonWrite cur tab k₂ = .ok res k') ∨
        ∃ c', c.pushSender cur = some c' ∧ res = .blocked ∧ k' = enqueue cur self c' (.write self) k₂) := by
  obtain ⟨_, k₁, blocked, rest⟩ := Prog.bind_eq_ok ran
  cases blocked
  obtain ⟨tab, k₂, stashed, rest⟩ := Prog.bind_eq_ok rest
  obtain ⟨c, k₃, found, last⟩ := Prog.bind_eq_ok rest
  obtain ⟨hc, rfl⟩ := deref_eq_ok found
  refine ⟨tab, k₃, c, stashed, hc, ?_⟩
  cases push : c.pushSender cur with
  | none =>
    rw [push] at last
    exact Or.inl ⟨rfl, last⟩
  | some c' =>
    rw [push] at last
    cases last
    exact Or.inr ⟨c', rfl, rfl, rfl⟩

/-- A write that waits and fails: nothing is stashed, or there is no room in the line. -/
theorem waitSender_err {e : Status} (ran : waitSender cur self data hs k = .err e k') :
    stashMessage cur hs (k.modifyThread cur (·.block data)) = .err e k' ∨
      ∃ tab k₂ c, stashMessage cur hs (k.modifyThread cur (·.block data)) = .ok tab k₂ ∧
        k₂.chans self = some c ∧ c.pushSender cur = none ∧ abandonWrite cur tab k₂ = .err e k' := by
  rcases Prog.bind_eq_err ran with bad | ⟨_, k₁, blocked, rest⟩
  · cases bad
  · cases blocked
    rcases Prog.bind_eq_err rest with stopped | ⟨tab, k₂, stashed, rest⟩
    · exact Or.inl stopped
    · rcases Prog.bind_eq_err rest with bad | ⟨c, k₃, found, last⟩
      · exact absurd bad (noErr_deref self _ _ _)
      · obtain ⟨hc, rfl⟩ := deref_eq_ok found
        cases push : c.pushSender cur with
        | none =>
          rw [push] at last
          exact Or.inr ⟨tab, k₃, c, stashed, hc, push, last⟩
        | some c' =>
          rw [push] at last
          cases last

end WaitSender

theorem noErr_closeChannel (p : Nat) : Prog.NoErr (closeChannel p) := by
  refine (noErr_deref p).bind fun c => (Prog.NoErr.modify _).bind fun _ => ?_
  cases c.peer with
  | none => exact .pure ()
  | some q => exact (noErr_deref q).bind fun _ => .modify _

theorem noErr_dropObject (o : KernelObject) : Prog.NoErr (dropObject o) := by
  cases o with
  | vmo v => exact (noErr_dropPhysPages v.owned).zoom
  | vmar r =>
    have single : r.drop = dropPhysPages [r.metaPage] := by
      funext m
      unfold Vmar.drop dropPhysPages Prog.forEach Prog.forEach Prog.bind
      cases dropPhysPage r.metaPage m <;> rfl
    exact Prog.NoErr.zoom (single ▸ noErr_dropPhysPages [r.metaPage])
  | channel p => exact (noErr_closeChannel p).bind fun _ => .modify _
  | port _ => exact .pure ()
  | process _ => exact .pure ()
  | thread _ => exact .pure ()

theorem noErr_takeHandle (tab hv : Nat) : Prog.NoErr (takeHandle tab hv) := by
  refine (Prog.NoErr.attempt _).bind fun r => (Prog.NoErr.attempt _).bind fun r => ?_
  cases r with
  | ok o => exact .pure _
  | error e => exact .pure _

theorem noErr_injectHandles (tab rtab receiver : Nat) (hs : List Nat) (hIdx : Nat) :
    Prog.NoErr (injectHandles tab rtab receiver hs hIdx) := by
  induction hs generalizing hIdx with
  | nil => exact .pure ()
  | cons hd hs ih =>
    refine (noErr_takeHandle tab hd).bind fun r => ?_
    cases r with
    | none => exact ih hIdx
    | some o =>
      refine (Prog.NoErr.attempt _).bind fun r => ?_
      cases r with
      | ok hv => exact (Prog.NoErr.modify _).bind fun _ => ih (hIdx + 1)
      | error e => exact ih hIdx

theorem noErr_stashHandles (tab cur : Nat) (hs : List Nat) (hIdx : Nat) :
    Prog.NoErr (stashHandles tab cur hs hIdx) := by
  induction hs generalizing hIdx with
  | nil => exact .pure ()
  | cons hd hs ih =>
    refine (noErr_takeHandle tab hd).bind fun r => ?_
    cases r with
    | none => exact ih hIdx
    | some o => exact (Prog.NoErr.modify _).bind fun _ => ih (hIdx + 1)

theorem noErr_receiveStash (tab cur sender : Nat) (is : List Nat) (hIdx : Nat) :
    Prog.NoErr (receiveStash tab cur sender is hIdx) := by
  induction is generalizing hIdx with
  | nil => exact .pure ()
  | cons i is ih =>
    refine Prog.NoErr.get.bind fun k => ?_
    cases k.stashed sender i with
    | none => exact ih hIdx
    | some o =>
      refine (Prog.NoErr.modify _).bind fun _ => (Prog.NoErr.attempt _).bind fun r => ?_
      cases r with
      | ok hv => exact (Prog.NoErr.modify _).bind fun _ => ih (hIdx + 1)
      | error e => exact ih hIdx

theorem noErr_clearStash (cur : Nat) (is : List Nat) : Prog.NoErr (clearStash cur is) := by
  induction is with
  | nil => exact .pure ()
  | cons i is ih =>
    refine Prog.NoErr.get.bind fun k => ?_
    cases k.stashed cur i with
    | none => exact ih
    | some o => exact (Prog.NoErr.modify _).bind fun _ => (noErr_dropObject o.1).bind fun _ => ih

theorem noErr_restoreStash (tab cur : Nat) (is : List Nat) :
    Prog.NoErr (restoreStash tab cur is) := by
  induction is with
  | nil => exact .pure ()
  | cons i is ih =>
    refine Prog.NoErr.get.bind fun k => ?_
    cases k.stashed cur i with
    | none => exact ih
    | some o => exact (Prog.NoErr.modify _).bind fun _ => (Prog.NoErr.attempt _).bind fun _ => ih

theorem passHandles_noErr {k k' : Kernel} {cur : Nat} {w t : Thread} {hs : List Nat} {e : Status}
    (ht : k.thread? cur = some t) : passHandles cur w hs k ≠ .err e k' := by
  intro ran
  rcases Prog.bind_eq_err ran with bad | ⟨t', k₁, found, rest⟩
  · simp [currentThread, ht] at bad
  · revert rest
    cases t'.handleTable with
    | none => exact Prog.NoErr.pure () _ _ _
    | some tab =>
      cases w.handleTable with
      | none => exact Prog.NoErr.pure () _ _ _
      | some rtab => exact noErr_injectHandles _ _ _ _ _ _ _ _

theorem collectHandles_noErr {k k' : Kernel} {cur sender : Nat} {t : Thread} {e : Status}
    (ht : k.thread? cur = some t) : collectHandles cur sender k ≠ .err e k' := by
  intro ran
  rcases Prog.bind_eq_err ran with bad | ⟨t', k₁, found, rest⟩
  · simp [currentThread, ht] at bad
  · revert rest
    cases t'.handleTable with
    | none => exact Prog.NoErr.pure () _ _ _
    | some tab => exact noErr_receiveStash _ _ _ _ _ _ _ _

theorem sendTo_noErr {k k' : Kernel} {cur : Nat} {r t : Thread} {data : List UInt8} {hs : List Nat}
    (ht : k.thread? cur = some t) (e : Status) :
    sendTo cur r data hs k ≠ .err e k' := by
  intro ran
  set k₁ := k.modifyThread r.id (·.fill (data.take (min data.length r.ipcBuf.length))) with hk₁
  obtain ⟨t₁, ht₁⟩ : ∃ t₁, k₁.thread? cur = some t₁ := by
    rw [hk₁, thread?_modifyThread _ (by intro; rfl)]
    split_ifs
    · rw [ht]; exact ⟨_, rfl⟩
    · exact ⟨t, ht⟩
  rcases Prog.bind_eq_err (m := passHandles cur r hs) (s := k₁) ran with bad | ⟨_, _, _, last⟩
  · exact passHandles_noErr ht₁ bad
  · cases last

theorem thread?_of_calls {k k' : Kernel} {tid : Nat} {t : Thread}
    (same : (k'.thread? tid).map Thread.call = (k.thread? tid).map Thread.call)
    (ht : k.thread? tid = some t) : ∃ t', k'.thread? tid = some t' ∧ t'.call = t.call := by
  rw [ht] at same
  cases hk : k'.thread? tid with
  | none => rw [hk] at same; cases same
  | some t' => rw [hk] at same; exact ⟨t', rfl, Option.some.inj same⟩

/-! ## What transfer leaves of a thread -/

/-- Two threads agree in all but the mailbox and the stash. -/
structure SameView (t t' : Thread) : Prop where
  state_eq : t'.state = t.state
  buf_eq : t'.ipcBuf = t.ipcBuf
  len_eq : t'.ipcActualLen = t.ipcActualLen
  call_eq : t'.call = t.call
  table_eq : t'.handleTable = t.handleTable

theorem SameView.refl (t : Thread) : SameView t t := ⟨rfl, rfl, rfl, rfl, rfl⟩

theorem SameView.trans {t t' t'' : Thread} (h : SameView t t') (h' : SameView t' t'') :
    SameView t t'' :=
  ⟨h'.state_eq.trans h.state_eq, h'.buf_eq.trans h.buf_eq, h'.len_eq.trans h.len_eq,
    h'.call_eq.trans h.call_eq, h'.table_eq.trans h.table_eq⟩

theorem deliver_thread? (k : Kernel) (tid i hv tid' : Nat) :
    (deliver tid i hv k).thread? tid' =
      if tid' = tid then (k.thread? tid').map fun t =>
        { t with ipcTransferHandles := t.ipcTransferHandles.set i (some hv) }
      else k.thread? tid' := thread?_modifyThread k (by intro; rfl) tid tid'

theorem setStash_thread? (k : Kernel) (tid i : Nat) (o : Option (KernelObject × Nat)) (tid' : Nat) :
    (setStash tid i o k).thread? tid' =
      if tid' = tid then (k.thread? tid').map fun t =>
        { t with ipcTransferSlots := t.ipcTransferSlots.set i o }
      else k.thread? tid' := thread?_modifyThread k (by intro; rfl) tid tid'

theorem deliver_view {k : Kernel} {tid i hv tid' : Nat} {t : Thread} (h : k.thread? tid' = some t) :
    ∃ t', (deliver tid i hv k).thread? tid' = some t' ∧ SameView t t' := by
  rw [deliver_thread?, h]
  split_ifs
  · exact ⟨_, rfl, rfl, rfl, rfl, rfl, rfl⟩
  · exact ⟨t, rfl, .refl t⟩

theorem setStash_view {k : Kernel} {tid i : Nat} {o : Option (KernelObject × Nat)} {tid' : Nat}
    {t : Thread} (h : k.thread? tid' = some t) :
    ∃ t', (setStash tid i o k).thread? tid' = some t' ∧ SameView t t' := by
  rw [setStash_thread?, h]
  split_ifs
  · exact ⟨_, rfl, rfl, rfl, rfl, rfl, rfl⟩
  · exact ⟨t, rfl, .refl t⟩

end Kernel

end CapsuleOS
