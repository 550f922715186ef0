import CapsuleOS.Object.Kernel

/-!
# Channel endpoints

Creation of an endpoint, its two waiting lines, and `Channel::close`. What reads and writes have in
common is stated once for a `Side`.
-/
namespace CapsuleOS

open Lib

namespace Channel

/-- `Channel::new` with the given identifier. -/
def fresh (id : Nat) : Channel where
  id
  state := .opened
  peer := none
  sendWaiters := Slots.empty
  recvWaiters := Slots.empty

def pushSender (c : Channel) (tid : Nat) : Option Channel :=
  (c.sendWaiters.insert? tid).map fun w => { c with sendWaiters := w }

def pushReceiver (c : Channel) (tid : Nat) : Option Channel :=
  (c.recvWaiters.insert? tid).map fun w => { c with recvWaiters := w }

def popSender (c : Channel) : Option (Nat × Channel) :=
  c.sendWaiters.pop?.map fun r => (r.1, { c with sendWaiters := r.2 })

def popReceiver (c : Channel) : Option (Nat × Channel) :=
  c.recvWaiters.pop?.map fun r => (r.1, { c with recvWaiters := r.2 })

def removeReceiver (c : Channel) (tid : Nat) : Channel :=
  match c.recvWaiters.extract? (· == tid) with
  | some r => { c with recvWaiters := r.2 }
  | none => c

/-- The waiting threads in the order in which `close` wakes them: cell by cell, the sender first. -/
def waiters (c : Channel) : List Nat :=
  (c.sendWaiters.cells.zip c.recvWaiters.cells).flatMap fun w => w.1.toList ++ w.2.toList

/-- What `close` leaves of an endpoint. -/
def shut (c : Channel) : Channel :=
  { c with state := .closed, peer := none, sendWaiters := Slots.empty, recvWaiters := Slots.empty }

theorem mem_waiters {c : Channel} {tid : Nat} :
    tid ∈ c.waiters ↔ tid ∈ c.sendWaiters.occupants ∨ tid ∈ c.recvWaiters.occupants := by
  have len : c.sendWaiters.cells.length = c.recvWaiters.cells.length := by
    rw [c.sendWaiters.size_eq, c.recvWaiters.size_eq]
  unfold waiters Slots.occupants
  generalize c.sendWaiters.cells = ss at len
  generalize c.recvWaiters.cells = rs at len
  induction ss generalizing rs with
  | nil => cases rs <;> simp_all
  | cons s ss ih =>
    cases rs with
    | nil => simp at len
    | cons r rs =>
      have rest := ih rs (by simpa using len)
      simp only [List.zip_cons_cons, List.flatMap_cons, List.mem_append, rest]
      cases s <;> cases r <;> simp <;> tauto

theorem removeReceiver_recv (c : Channel) (tid : Nat) :
    (c.removeReceiver tid).recvWaiters.occupants.Subperm c.recvWaiters.occupants ∧
      (c.recvWaiters.occupants.Nodup → tid ∉ (c.removeReceiver tid).recvWaiters.occupants) := by
  unfold removeReceiver
  cases h : c.recvWaiters.extract? (· == tid) with
  | none =>
    refine ⟨.refl _, fun _ mem => ?_⟩
    exact Slots.extract?_eq_none h tid mem (by simp)
  | some r =>
    obtain ⟨b, w⟩ := r
    obtain ⟨eq, perm⟩ := Slots.extract?_perm h
    have hb : b = tid := by simpa using eq
    subst hb
    refine ⟨(List.sublist_cons_self _ _).subperm.trans perm.symm.subperm, fun nodup => ?_⟩
    exact (List.nodup_cons.mp (perm.nodup_iff.mp nodup)).1

theorem removeReceiver_send (c : Channel) (tid : Nat) :
    (c.removeReceiver tid).sendWaiters = c.sendWaiters := by
  unfold removeReceiver
  split <;> rfl

end Channel

/-- The two sides of a transfer. -/
inductive Side where
  | send
  | recv
  deriving DecidableEq

namespace Side

def other : Side → Side
  | .send => .recv
  | .recv => .send

@[simp] theorem other_other (side : Side) : side.other.other = side := by cases side <;> rfl

theorem other_ne (side : Side) : side.other ≠ side := by cases side <;> simp [other]

def queue (side : Side) (c : Channel) : Slots Nat maxWaiters :=
  match side with
  | .send => c.sendWaiters
  | .recv => c.recvWaiters

def push (side : Side) (c : Channel) (tid : Nat) : Option Channel :=
  match side with
  | .send => c.pushSender tid
  | .recv => c.pushReceiver tid

def pop (side : Side) (c : Channel) : Option (Nat × Channel) :=
  match side with
  | .send => c.popSender
  | .recv => c.popReceiver

theorem pop_nil {side : Side} {c : Channel} (h : (side.queue c).Packed []) : side.pop c = none := by
  cases side with
  | send =>
    have empty : c.sendWaiters.pop? = none := h.pop_nil
    simp [pop, Channel.popSender, empty]
  | recv =>
    have empty : c.recvWaiters.pop? = none := h.pop_nil
    simp [pop, Channel.popReceiver, empty]

theorem pop_cons {side : Side} {c : Channel} {x : Nat} {xs : List Nat}
    (h : (side.queue c).Packed (x :: xs)) :
    ∃ c', side.pop c = some (x, c') ∧ (side.queue c').Packed xs ∧
      side.other.queue c' = side.other.queue c := by
  obtain ⟨s, hpop, packed⟩ := h.pop_cons
  cases side with
  | send => exact ⟨{ c with sendWaiters := s }, by simp_all [pop, Channel.popSender, queue], packed, rfl⟩
  | recv => exact ⟨{ c with recvWaiters := s }, by simp_all [pop, Channel.popReceiver, queue], packed, rfl⟩

theorem push_packed {side : Side} {c c' : Channel} {tid : Nat} {xs : List Nat}
    (h : (side.queue c).Packed xs) (hpush : side.push c tid = some c') :
    (side.queue c').Packed (xs ++ [tid]) ∧ side.other.queue c' = side.other.queue c := by
  have inserted : ∀ s, (side.queue c).insert? tid = some s → s.Packed (xs ++ [tid]) := by
    intro s hs
    by_cases room : xs.length < maxWaiters
    · obtain ⟨s', hs', packed⟩ := h.insert tid room
      rw [hs] at hs'
      cases hs'
      exact packed
    · rw [h.insert_full tid room] at hs
      cases hs
  cases side with
  | send =>
    obtain ⟨s, hs, rfl⟩ := Option.map_eq_some_iff.mp hpush
    exact ⟨inserted s hs, rfl⟩
  | recv =>
    obtain ⟨s, hs, rfl⟩ := Option.map_eq_some_iff.mp hpush
    exact ⟨inserted s hs, rfl⟩

theorem push_perm {side : Side} {c c' : Channel} {tid : Nat} (h : side.push c tid = some c') :
    (side.queue c').occupants.Perm (tid :: (side.queue c).occupants) ∧
      side.other.queue c' = side.other.queue c := by
  cases side with
  | send =>
    obtain ⟨s, hs, rfl⟩ := Option.map_eq_some_iff.mp h
    exact ⟨Slots.insert?_perm hs, rfl⟩
  | recv =>
    obtain ⟨s, hs, rfl⟩ := Option.map_eq_some_iff.mp h
    exact ⟨Slots.insert?_perm hs, rfl⟩

theorem pop_perm {side : Side} {c c' : Channel} {tid : Nat} (h : side.pop c = some (tid, c')) :
    (side.queue c).occupants.Perm (tid :: (side.queue c').occupants) ∧
      side.other.queue c' = side.other.queue c := by
  cases side with
  | send =>
    obtain ⟨s, hs, eq⟩ := Option.map_eq_some_iff.mp h
    cases eq
    exact ⟨(Slots.extract?_perm hs).2, rfl⟩
  | recv =>
    obtain ⟨s, hs, eq⟩ := Option.map_eq_some_iff.mp h
    cases eq
    exact ⟨(Slots.extract?_perm hs).2, rfl⟩

theorem mem_waiters {c : Channel} {tid : Nat} :
    tid ∈ c.waiters ↔ ∃ side : Side, tid ∈ (side.queue c).occupants := by
  rw [Channel.mem_waiters]
  constructor
  · rintro (h | h)
    · exact ⟨.send, h⟩
    · exact ⟨.recv, h⟩
  · rintro ⟨side, h⟩
    cases side with
    | send => exact Or.inl h
    | recv => exact Or.inr h

end Side

namespace Kernel

/-- Wake and clear the waiters of one endpoint, and mark it closed. -/
def shutEndpoint (p : Nat) (c : Channel) : KernelM Unit :=
  Prog.modify fun k => (k.setChan p (some c.shut)).wakeAll c.waiters

/-- `Channel::close`. -/
def closeChannel (p : Nat) : KernelM Unit := do
  let c ← deref p
  shutEndpoint p c
  match c.peer with
  | none => pure ()
  | some q =>
    let d ← deref q
    shutEndpoint q d

end Kernel

end CapsuleOS
