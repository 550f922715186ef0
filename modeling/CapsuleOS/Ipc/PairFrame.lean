import CapsuleOS.Ipc.Frames

/-!
# Handle transfer beside an open pair

While messages pass over a pair of endpoints, the handles that travel with them can be lost on the
way, and a lost handle may close some other channel and wake the threads that wait there.
`PairFrame a b` says what this leaves of the pair: as long as both endpoints stay open they are
untouched, and so is every thread whose call, if any, is on one of them.
-/
namespace CapsuleOS

open Lib

/-- The endpoint a waiting call is on. -/
def Call.chan : Call → Nat
  | .read p _ => p
  | .write p => p
  | .readWithTimeout p _ _ => p

namespace Kernel

variable {a b : Nat} {k k' k'' : Kernel}

/-- The thread is in no call, or in a call on one of the two endpoints. -/
def AtPair (a b : Nat) (t : Thread) : Prop := ∀ c, t.call = some c → c.chan = a ∨ c.chan = b

/-- Whoever waits on another channel is in a call there. -/
def Elsewhere (a b : Nat) (k : Kernel) : Prop :=
  ∀ p c tid, p ≠ a → p ≠ b → k.chans p = some c → tid ∈ c.waiters →
    ∀ t, k.thread? tid = some t → ¬ AtPair a b t

def OpenEnd (k : Kernel) (p : Nat) : Prop := ∃ c, k.chans p = some c ∧ c.state ≠ .closed

structure PairFrame (a b : Nat) (k k' : Kernel) : Prop where
  calls : ∀ tid, (k'.thread? tid).map Thread.call = (k.thread? tid).map Thread.call
  elsewhere : Elsewhere a b k → Elsewhere a b k'
  stays_open : k'.OpenEnd a ∧ k'.OpenEnd b → k.OpenEnd a ∧ k.OpenEnd b
  left : k'.OpenEnd a ∧ k'.OpenEnd b → k'.chans a = k.chans a
  right : k'.OpenEnd a ∧ k'.OpenEnd b → k'.chans b = k.chans b
  threads : Elsewhere a b k → k'.OpenEnd a ∧ k'.OpenEnd b → ∀ tid t, k.thread? tid = some t →
    AtPair a b t → ∃ t', k'.thread? tid = some t' ∧ SameView t t'

instance : Std.Refl (PairFrame a b) where
  refl _ := {
    calls := fun _ => rfl
    elsewhere := id
    stays_open := id
    left := fun _ => rfl
    right := fun _ => rfl
    threads := fun _ _ _ t ht _ => ⟨t, ht, .refl t⟩ }

theorem PairFrame.trans (h : PairFrame a b k k') (h' : PairFrame a b k' k'') :
    PairFrame a b k k'' where
  calls tid := (h'.calls tid).trans (h.calls tid)
  elsewhere e := h'.elsewhere (h.elsewhere e)
  stays_open o := h.stays_open (h'.stays_open o)
  left o := (h'.left o).trans (h.left (h'.stays_open o))
  right o := (h'.right o).trans (h.right (h'.stays_open o))
  threads e o tid t ht local_ := by
    obtain ⟨t', ht', view⟩ := h.threads e (h'.stays_open o) tid t ht local_
    obtain ⟨t'', ht'', view'⟩ := h'.threads (h.elsewhere e) o tid t' ht' (by
      intro c hc
      rw [view.call_eq] at hc
      exact local_ c hc)
    exact ⟨t'', ht'', view.trans view'⟩

instance : IsTrans Kernel (PairFrame a b) := ⟨fun _ _ _ => PairFrame.trans⟩

/-- An update that touches neither channels nor calls, and shows in no thread's view. -/
theorem PairFrame.of_view (chans : k'.chans = k.chans)
    (views : ∀ tid t, k.thread? tid = some t → ∃ t', k'.thread? tid = some t' ∧ SameView t t')
    (none_new : ∀ tid, k.thread? tid = none → k'.thread? tid = none) : PairFrame a b k k' where
  calls tid := by
    cases h : k.thread? tid with
    | none => rw [none_new tid h]
    | some t =>
      obtain ⟨t', ht', view⟩ := views tid t h
      simp [ht', view.call_eq]
  elsewhere e p c tid pa pb hc mem t' ht' local_ := by
    rw [chans] at hc
    cases h : k.thread? tid with
    | none => rw [none_new tid h] at ht'; cases ht'
    | some t =>
      obtain ⟨t'', ht'', view⟩ := views tid t h
      rw [ht''] at ht'
      cases ht'
      refine e p c tid pa pb hc mem t h fun call hcall => local_ call ?_
      rw [view.call_eq, hcall]
  stays_open o := by simpa [OpenEnd, chans] using o
  left _ := by rw [chans]
  right _ := by rw [chans]
  threads _ _ tid t ht _ := views tid t ht

theorem PairFrame.of_threads (chans : k'.chans = k.chans) (threads : k'.thread? = k.thread?) :
    PairFrame a b k k' :=
  .of_view chans (fun tid t h => ⟨t, by rw [threads, h], .refl t⟩) fun tid h => by rw [threads, h]

theorem pairFrame_deliver (k : Kernel) (tid i hv : Nat) : PairFrame a b k (deliver tid i hv k) :=
  .of_view rfl (fun _ _ => deliver_view) fun tid' h => by rw [deliver_thread?, h]; simp

theorem pairFrame_setStash (k : Kernel) (tid i : Nat) (o : Option (KernelObject × Nat)) :
    PairFrame a b k (setStash tid i o k) :=
  .of_view rfl (fun _ _ => setStash_view) fun tid' h => by rw [setStash_thread?, h]; simp

/-! ## Closing another channel -/

/-- Shutting one endpoint that is live. -/
theorem pairFrame_shut {p : Nat} {c : Channel} (h : k.chans p = some c) :
    PairFrame a b k ((k.setChan p (some c.shut)).wakeAll c.waiters) := by
  have chans : ∀ q, ((k.setChan p (some c.shut)).wakeAll c.waiters).chans q =
      if q = p then some c.shut else k.chans q := by
    intro q
    rw [wakeAll_chans, setChan_chans]
  have other : (∀ q, (q = a ∨ q = b) → ((k.setChan p (some c.shut)).wakeAll c.waiters).OpenEnd q) →
      p ≠ a ∧ p ≠ b := by
    intro o
    constructor
    · rintro rfl
      obtain ⟨d, hd, nc⟩ := o p (Or.inl rfl)
      rw [chans, if_pos rfl] at hd
      cases hd
      exact nc rfl
    · rintro rfl
      obtain ⟨d, hd, nc⟩ := o p (Or.inr rfl)
      rw [chans, if_pos rfl] at hd
      cases hd
      exact nc rfl
  have other' : ((k.setChan p (some c.shut)).wakeAll c.waiters).OpenEnd a ∧
      ((k.setChan p (some c.shut)).wakeAll c.waiters).OpenEnd b → p ≠ a ∧ p ≠ b := by
    intro o
    refine other fun q hq => ?_
    rcases hq with rfl | rfl
    · exact o.1
    · exact o.2
  refine ⟨fun tid => wakeAll_calls _ _ tid, ?_, ?_, ?_, ?_, ?_⟩
  · intro e q d tid qa qb hd mem t ht
    rw [chans] at hd
    split_ifs at hd with eq
    · cases hd
      rw [Channel.mem_waiters] at mem
      simp [Channel.shut] at mem
    · have same := wakeAll_calls (k.setChan p (some c.shut)) c.waiters tid
      rw [ht, setChan_thread?] at same
      cases hk : k.thread? tid with
      | none => rw [hk] at same; cases same
      | some t₀ =>
        rw [hk] at same
        have call_eq : t.call = t₀.call := Option.some.inj same
        intro local_
        exact e q d tid qa qb hd mem t₀ hk fun call hcall => local_ call (by rw [call_eq, hcall])
  · intro o
    obtain ⟨pa, pb⟩ := other' o
    obtain ⟨⟨ca, hca, na⟩, ⟨cb, hcb, nb⟩⟩ := o
    rw [chans, if_neg (Ne.symm pa)] at hca
    rw [chans, if_neg (Ne.symm pb)] at hcb
    exact ⟨⟨ca, hca, na⟩, ⟨cb, hcb, nb⟩⟩
  · intro o
    rw [chans, if_neg (Ne.symm (other' o).1)]
  · intro o
    rw [chans, if_neg (Ne.symm (other' o).2)]
  · intro e o tid t ht local_
    obtain ⟨pa, pb⟩ := other' o
    refine ⟨t, ?_, .refl t⟩
    rw [thread?_wakeAll, setChan_thread?]
    split_ifs with mem
    · exact absurd local_ (e p c tid pa pb h mem t ht)
    · exact ht

theorem pairFrame_free (k : Kernel) (p : Nat) : PairFrame a b k (k.setChan p none) := by
  have other : (k.setChan p none).OpenEnd a ∧ (k.setChan p none).OpenEnd b → p ≠ a ∧ p ≠ b := by
    rintro ⟨⟨ca, hca, _⟩, ⟨cb, hcb, _⟩⟩
    constructor
    · rintro rfl; simp at hca
    · rintro rfl; simp at hcb
  refine ⟨fun _ => rfl, ?_, ?_, ?_, ?_, fun _ _ tid t ht _ => ⟨t, ht, .refl t⟩⟩
  · intro e q d tid qa qb hd mem t ht
    rw [setChan_chans] at hd
    split_ifs at hd with eq
    exact e q d tid qa qb hd mem t ht
  · intro o
    obtain ⟨pa, pb⟩ := other o
    obtain ⟨⟨ca, hca, na⟩, ⟨cb, hcb, nb⟩⟩ := o
    rw [setChan_chans_ne _ (Ne.symm pa)] at hca
    rw [setChan_chans_ne _ (Ne.symm pb)] at hcb
    exact ⟨⟨ca, hca, na⟩, ⟨cb, hcb, nb⟩⟩
  · intro o
    rw [setChan_chans_ne _ (Ne.symm (other o).1)]
  · intro o
    rw [setChan_chans_ne _ (Ne.symm (other o).2)]

theorem pairFrame_close (p : Nat) : Prog.Within (PairFrame a b) (closeChannel p) := by
  intro k
  rw [closeChannel, Prog.bind_apply, deref]
  cases h : k.chans p with
  | none => exact Std.Refl.refl k
  | some c =>
    simp only [Prog.bind_apply, shutEndpoint, Prog.modify_apply]
    have first := pairFrame_shut (a := a) (b := b) h
    cases hpeer : c.peer with
    | none => exact first
    | some q =>
      simp only [Prog.bind_apply, deref]
      cases hq : ((k.setChan p (some c.shut)).wakeAll c.waiters).chans q with
      | none => exact first
      | some d =>
        simp only [Prog.modify_apply, Outcome.state_ok]
        exact first.trans (pairFrame_shut hq)

/-- All handle routines keep the pair as long as they leave it open. -/
theorem pairFrame_handles : HandleFrame (PairFrame a b) where
  counter _ _ := .of_threads rfl rfl
  table _ _ _ := .of_threads rfl rfl
  mm _ _ := .of_threads rfl rfl
  drop := within_drop pairFrame_close pairFrame_free

end Kernel

end CapsuleOS
