import CapsuleOS.Ipc.Standing

/-!
# The channel machine

The channel operations as steps of one machine: any thread that is in no call may make one, a thread
that waits in a call is resumed when the scheduler may do so, handles are closed and time passes.
-/
namespace CapsuleOS

open Lib

inductive ChannelOp where
  | write (cur chan : Nat) (data : List UInt8) (handles : List Nat)
  | read (cur chan : Nat) (data : List UInt8) (handles : List Nat)
  | readWithTimeout (cur chan : Nat) (data : List UInt8) (handles : List Nat) (timeoutMs : Nat)
  | resume (cur : Nat)
  | close (tab hv : Nat)
  | tick
  deriving DecidableEq

namespace ChannelOp

open Kernel

def exec : ChannelOp → KernelM (Option CallResult)
  | .write cur p data hs => do return some (← channelWrite cur p data hs)
  | .read cur p data hs => do return some (← channelRead cur p data hs)
  | .readWithTimeout cur p data hs ms => do
    return some (← channelReadWithTimeout cur p data hs ms)
  | .resume cur => do return some (← Kernel.resume cur)
  | .close tab hv => do
    sysClose tab hv
    return none
  | .tick => do
    Prog.modify fun k => { k with ticks := k.ticks + 1 }
    return none

/-- The thread of the operation exists and is where the operation needs it. -/
def Enabled (k : Kernel) : ChannelOp → Prop
  | .write cur _ _ _ => ∃ t, k.thread? cur = some t ∧ t.call = none
  | .read cur _ _ _ => ∃ t, k.thread? cur = some t ∧ t.call = none
  | .readWithTimeout cur _ _ _ _ => ∃ t, k.thread? cur = some t ∧ t.call = none
  | .resume cur => ∃ t, k.thread? cur = some t ∧ t.call ≠ none ∧ k.MayResume t
  | .close _ _ => True
  | .tick => True

/-- The operation takes `k` to `k'`, returning a value or an error. -/
inductive Steps (op : ChannelOp) (k k' : Kernel) : Prop where
  | ok (enabled : op.Enabled k) (r : Option CallResult) (ran : op.exec k = .ok r k')
  | err (enabled : op.Enabled k) (e : Status) (ran : op.exec k = .err e k')

variable {op : ChannelOp} {k k' : Kernel}

theorem Steps.enabled (h : op.Steps k k') : op.Enabled k := by
  cases h with
  | ok enabled => exact enabled
  | err enabled => exact enabled

theorem Steps.state (h : op.Steps k k') : (op.exec k).state = k' := by
  cases h with
  | ok _ r ran => rw [ran]; rfl
  | err _ e ran => rw [ran]; rfl

theorem Steps.not_fault (h : op.Steps k k') (f : Kernel) : op.exec k ≠ .fault f := by
  cases h with
  | ok _ r ran => rw [ran]; simp
  | err _ e ran => rw [ran]; simp

theorem state_map {α β : Type} (m : KernelM α) (g : α → β) (k : Kernel) :
    ((m >>= fun a => pure (g a)) k).state = (m k).state := by
  rw [Prog.bind_apply]
  cases m k <;> rfl

/-- What every part of the channel calls stays within, every step of the machine stays within. -/
theorem within_exec {R : Kernel → Kernel → Prop} [Std.Refl R] [IsTrans Kernel R] (h : ChannelFrame R)
    (tick : ∀ k : Kernel, R k { k with ticks := k.ticks + 1 }) (op : ChannelOp) (k : Kernel) :
    R k (op.exec k).state := by
  cases op with
  | write cur p data hs =>
    rw [exec, state_map]
    exact h.channelWrite data hs k
  | read cur p data hs =>
    rw [exec, state_map]
    exact h.channelRead data hs k
  | readWithTimeout cur p data hs ms =>
    rw [exec, state_map]
    exact h.channelReadWithTimeout data hs ms k
  | resume cur =>
    rw [exec, state_map]
    exact h.resume k
  | close tab hv =>
    rw [exec, state_map]
    exact ((h.calls.remove tab hv).bind fun o => h.calls.drop o.1) k
  | tick => exact tick k

theorem fault_map {α β : Type} {m : KernelM α} {g : α → β} {k f : Kernel} (h : m k = .fault f) :
    (m >>= fun a => pure (g a)) k = .fault f := by
  rw [Prog.bind_apply, h]

/-- The outcome is a return, with a value or an error, in the state `k'`. -/
def Returns {α : Type} (out : Outcome Kernel Status α) (k' : Kernel) : Prop :=
  (∃ a, out = .ok a k') ∨ ∃ e, out = .err e k'

theorem Returns.of_ok {α : Type} {a : α} {k₁ : Kernel} (h : Returns (.ok a k₁) k') : k' = k₁ := by
  rcases h with ⟨_, eq⟩ | ⟨_, eq⟩ <;> cases eq
  rfl

theorem Returns.of_err {α : Type} {e : Status} {k₁ : Kernel}
    (h : Returns (.err e k₁ : Outcome Kernel Status α) k') : k' = k₁ := by
  rcases h with ⟨_, eq⟩ | ⟨_, eq⟩ <;> cases eq
  rfl

theorem not_returns_fault {α : Type} (f : Kernel) :
    ¬ Returns (.fault f : Outcome Kernel Status α) k' := by
  rintro (⟨_, eq⟩ | ⟨_, eq⟩) <;> cases eq

/-- Dropping an object leaves the endpoints that do not belong to it. -/
theorem dropObject_chans {o : KernelObject} (ret : Returns (dropObject o k) k') {q : Nat}
    (apart : ∀ r c, o = .channel r → k.chans r = some c → q ≠ r ∧ c.peer ≠ some q) :
    k'.chans q = k.chans q := by
  have mm : ∀ (m : MmM Unit), Returns (onMm m k) k' → k'.chans q = k.chans q := by
    intro m ret
    unfold onMm Prog.zoom at ret
    split at ret
    · rw [ret.of_ok]
    · rw [ret.of_err]
    · exact absurd ret (not_returns_fault _)
  cases o with
  | vmo v => exact mm _ ret
  | vmar r => exact mm _ ret
  | channel r =>
    cases hc : k.chans r with
    | none =>
      simp only [dropObject, closeChannel, Prog.bind_apply, deref, hc] at ret
      exact absurd ret (not_returns_fault _)
    | some c =>
      obtain ⟨ne, ne'⟩ := apart r c rfl hc
      simp only [dropObject, closeChannel, Prog.bind_apply, deref, hc, shutEndpoint,
        Prog.modify_apply] at ret
      cases hpeer : c.peer with
      | none =>
        simp only [hpeer, Prog.pure_apply] at ret
        rw [ret.of_ok, setChan_chans_ne _ ne, wakeAll_chans, setChan_chans_ne _ ne]
      | some r' =>
        have ne'' : q ≠ r' := by
          rintro rfl
          exact ne' hpeer
        simp only [hpeer, Prog.bind_apply, deref, wakeAll_chans] at ret
        cases hd : (k.setChan r (some c.shut)).chans r' with
        | none =>
          simp only [hd] at ret
          exact absurd ret (not_returns_fault _)
        | some d =>
          simp only [hd, Prog.modify_apply] at ret
          rw [ret.of_ok, setChan_chans_ne _ ne, wakeAll_chans, setChan_chans_ne _ ne'',
            wakeAll_chans, setChan_chans_ne _ ne]
  | port _ => rw [ret.of_ok]
  | process _ => rw [ret.of_ok]
  | thread _ => rw [ret.of_ok]

theorem Returns.of_map {α β : Type} {m : KernelM α} {g : α → β}
    (h : Returns ((m >>= fun a => pure (g a)) k) k') : Returns (m k) k' := by
  rcases h with ⟨b, h⟩ | ⟨e, h⟩
  · obtain ⟨a, k₁, ran, last⟩ := Prog.bind_eq_ok h
    cases last
    exact Or.inl ⟨a, ran⟩
  · rcases Prog.bind_eq_err h with ran | ⟨a, k₁, _, last⟩
    · exact Or.inr ⟨e, ran⟩
    · cases last

theorem Steps.returns (h : op.Steps k k') : Returns (op.exec k) k' := by
  cases h with
  | ok _ r ran => exact Or.inl ⟨r, ran⟩
  | err _ e ran => exact Or.inr ⟨e, ran⟩

/-- Every step keeps the waiting lines in order. -/
theorem Steps.standing (h : op.Steps k k') (s : k.Standing) : k'.Standing := by
  have enabled := h.enabled
  rw [← h.state]
  cases op with
  | write cur p data hs =>
    obtain ⟨t, ht, idle⟩ := enabled
    rw [exec, state_map]
    exact channelWrite_standing s ht idle
  | read cur p data hs =>
    obtain ⟨t, ht, idle⟩ := enabled
    rw [exec, state_map]
    exact channelRead_standing s ht idle
  | readWithTimeout cur p data hs ms =>
    obtain ⟨t, ht, idle⟩ := enabled
    rw [exec, state_map]
    exact channelReadWithTimeout_standing s ht idle
  | resume cur =>
    obtain ⟨t, ht, _, may⟩ := enabled
    rcases resume_standing s ht may with ⟨f, bad⟩ | done
    · exact absurd (fault_map bad) (h.not_fault f)
    · rw [exec, state_map]
      exact done
  | close tab hv =>
    rw [exec, state_map]
    exact sysClose_standing s tab hv
  | tick => exact s.of_threads rfl fun tid t ht _ => ⟨t, ht, rfl, rfl⟩

end ChannelOp

end CapsuleOS
