import CapsuleOS.Ipc.Endpoint
import CapsuleOS.Lib.Refines

/-!
# The waiter arrays of a channel

The loops over the two arrays of an endpoint, index by index. They are the operations on the waiting lines
(`perform_arrays`), and both lines are queues of eight places.
-/
namespace CapsuleOS

open Lib

structure WaiterArrays where
  sendWaiters : List (Option Nat)
  recvWaiters : List (Option Nat)

inductive QueueCall where
  | pushSender (tid : Nat)
  | popSender
  | pushReceiver (tid : Nat)
  | popReceiver
  | removeReceiver (tid : Nat)

inductive QueueReply where
  | pushed (ok : Bool)
  | popped (tid : Option Nat)
  | removed

namespace WaiterArrays

/-- The first free slot is taken. -/
def push (tid : Nat) : List (Option Nat) → Bool × List (Option Nat)
  | [] => (false, [])
  | none :: ws => (true, some tid :: ws)
  | some w :: ws =>
    let (ok, ws) := push tid ws
    (ok, some w :: ws)

/-- Every slot gets the next one. -/
def shiftLoop : Nat → Nat → List (Option Nat) → List (Option Nat)
  | 0, _, ws => ws
  | rounds + 1, j, ws => shiftLoop rounds (j + 1) (ws.set j (ws[j + 1]?).join)

/-- Slot `i` is emptied, and the waiters behind it shift left. -/
def shiftOut (i : Nat) (ws : List (Option Nat)) : List (Option Nat) :=
  (shiftLoop (maxWaiters - 1 - i) i (ws.set i none)).set (maxWaiters - 1) none

/-- The search from slot `i` on, and what it does with the waiter it finds. -/
def takeLoop (fits : Nat → Bool) : Nat → Nat → List (Option Nat) → Option Nat × List (Option Nat)
  | 0, _, ws => (none, ws)
  | rounds + 1, i, ws =>
    match (ws[i]?).join with
    | some tid => if fits tid then (some tid, shiftOut i ws) else takeLoop fits rounds (i + 1) ws
    | none => takeLoop fits rounds (i + 1) ws

def pop (ws : List (Option Nat)) : Option Nat × List (Option Nat) := takeLoop (fun _ => true) maxWaiters 0 ws

def remove (tid : Nat) (ws : List (Option Nat)) : List (Option Nat) := (takeLoop (· == tid) maxWaiters 0 ws).2

def new : WaiterArrays := ⟨List.replicate maxWaiters none, List.replicate maxWaiters none⟩

end WaiterArrays

namespace QueueCall

def exec : QueueCall → WaiterArrays → QueueReply × WaiterArrays
  | .pushSender tid, ws =>
    let (ok, w) := WaiterArrays.push tid ws.sendWaiters
    (.pushed ok, { ws with sendWaiters := w })
  | .popSender, ws =>
    let (tid, w) := WaiterArrays.pop ws.sendWaiters
    (.popped tid, { ws with sendWaiters := w })
  | .pushReceiver tid, ws =>
    let (ok, w) := WaiterArrays.push tid ws.recvWaiters
    (.pushed ok, { ws with recvWaiters := w })
  | .popReceiver, ws =>
    let (tid, w) := WaiterArrays.pop ws.recvWaiters
    (.popped tid, { ws with recvWaiters := w })
  | .removeReceiver tid, ws => (.removed, { ws with recvWaiters := WaiterArrays.remove tid ws.recvWaiters })

/-- The same calls on an endpoint. -/
def perform : QueueCall → Channel → QueueReply × Channel
  | .pushSender tid, c => (.pushed (c.pushSender tid).isSome, (c.pushSender tid).getD c)
  | .popSender, c => (.popped (c.popSender.map (·.1)), (c.popSender.map (·.2)).getD c)
  | .pushReceiver tid, c => (.pushed (c.pushReceiver tid).isSome, (c.pushReceiver tid).getD c)
  | .popReceiver, c => (.popped (c.popReceiver.map (·.1)), (c.popReceiver.map (·.2)).getD c)
  | .removeReceiver tid, c => (.removed, c.removeReceiver tid)

/-- The calls on two queues of threads. -/
def spec : QueueCall → List Nat × List Nat → QueueReply × (List Nat × List Nat)
  | .pushSender tid, (ss, rs) =>
    let (ok, ss) := Fifo.push maxWaiters tid ss
    (.pushed ok, ss, rs)
  | .popSender, (ss, rs) =>
    let (tid, ss) := Fifo.pop ss
    (.popped tid, ss, rs)
  | .pushReceiver tid, (ss, rs) =>
    let (ok, rs) := Fifo.push maxWaiters tid rs
    (.pushed ok, ss, rs)
  | .popReceiver, (ss, rs) =>
    let (tid, rs) := Fifo.pop rs
    (.popped tid, ss, rs)
  | .removeReceiver tid, (ss, rs) => (.removed, ss, Fifo.remove tid rs)

end QueueCall

/-! ## The loops -/

namespace WaiterArrays

variable {pre post ws : List (Option Nat)} {tid : Nat} {fits : Nat → Bool}

theorem push_eq (tid : Nat) (ws : List (Option Nat)) :
    push tid ws = ((Cells.insertFirst tid ws).isSome, (Cells.insertFirst tid ws).getD ws) := by
  induction ws with
  | nil => rfl
  | cons w ws ih =>
    cases w with
    | none => rfl
    | some w =>
      rw [push, ih, Cells.insertFirst]
      cases Cells.insertFirst tid ws <;> rfl

/-- The last slot stays behind. -/
theorem shiftLoop_append (pre post : List (Option Nat)) (w : Option Nat) :
    ∃ last, shiftLoop post.length pre.length (pre ++ w :: post) = pre ++ post ++ [last] := by
  induction post generalizing pre w with
  | nil => exact ⟨w, by simp [shiftLoop]⟩
  | cons v post ih =>
    have next : ((pre ++ w :: v :: post)[pre.length + 1]?).join = v := by simp
    have moved : (pre ++ w :: v :: post).set pre.length v = (pre ++ [v]) ++ v :: post := by simp
    obtain ⟨last, rest⟩ := ih (pre ++ [v]) v
    refine ⟨last, ?_⟩
    rw [List.length_cons, shiftLoop, next, moved]
    simpa using rest

theorem shiftOut_append (size : (pre ++ post).length + 1 = maxWaiters) (w : Option Nat) :
    shiftOut pre.length (pre ++ w :: post) = pre ++ (post ++ [none]) := by
  have emptied : (pre ++ w :: post).set pre.length none = pre ++ none :: post := by simp
  have rounds : maxWaiters - 1 - pre.length = post.length := by
    rw [List.length_append] at size
    omega
  have place : maxWaiters - 1 = (pre ++ post).length := by omega
  obtain ⟨last, shifted⟩ := shiftLoop_append pre post none
  rw [shiftOut, emptied, rounds, shifted, place, ← List.append_assoc]
  simp

theorem takeLoop_append (size : (pre ++ post).length = maxWaiters) :
    takeLoop fits post.length pre.length (pre ++ post) =
      ((Cells.extractFirst fits post).map (·.1),
        ((Cells.extractFirst fits post).map fun r => pre ++ r.2).getD (pre ++ post)) := by
  induction post generalizing pre with
  | nil => rfl
  | cons w post ih =>
    have here : ((pre ++ w :: post)[pre.length]?).join = w := by simp
    have skip : takeLoop fits post.length (pre.length + 1) (pre ++ w :: post) =
        ((Cells.extractFirst fits post).map (·.1),
          ((Cells.extractFirst fits post).map fun r => pre ++ w :: r.2).getD (pre ++ w :: post)) := by
      have longer : (pre ++ [w] ++ post).length = maxWaiters := by simpa using size
      have rest := ih longer
      simpa using rest
    rw [List.length_cons, takeLoop, here]
    cases w with
    | none =>
      simp only [Cells.extractFirst, Option.map_map]
      exact skip
    | some tid =>
      simp only [Cells.extractFirst]
      by_cases found : fits tid
      · rw [if_pos found, if_pos found, shiftOut_append]
        · rfl
        · simpa [Nat.add_assoc] using size
      · rw [if_neg found, if_neg found, skip, Option.map_map, Option.map_map]
        rfl

theorem takeLoop_eq (size : ws.length = maxWaiters) : takeLoop fits maxWaiters 0 ws =
    ((Cells.extractFirst fits ws).map (·.1), ((Cells.extractFirst fits ws).map (·.2)).getD ws) := by
  have all := @takeLoop_append [] ws fits size
  rw [size] at all
  exact all

end WaiterArrays

/-! ## Waiting lines -/

namespace Channel

def arrays (c : Channel) : WaiterArrays := ⟨c.sendWaiters.cells, c.recvWaiters.cells⟩

/-- The threads in both lines. -/
def Lines (c : Channel) (q : List Nat × List Nat) : Prop := c.sendWaiters.Packed q.1 ∧ c.recvWaiters.Packed q.2

end Channel

section Lines

variable {w : Slots Nat maxWaiters} {fits : Nat → Bool} {c : Channel} {q : List Nat × List Nat}

theorem push_cells (tid : Nat) : WaiterArrays.push tid w.cells =
    ((w.insert? tid).isSome, (w.insert? tid).elim w.cells (·.cells)) := by
  rw [WaiterArrays.push_eq]
  cases placed : w.insert? tid with
  | none =>
    have full : Cells.insertFirst tid w.cells = none := by
      unfold Slots.insert? at placed
      split at placed
      · assumption
      · cases placed
    rw [full]
    rfl
  | some t =>
    rw [Slots.insert?_cells placed]
    rfl

theorem take_cells : WaiterArrays.takeLoop fits maxWaiters 0 w.cells =
    ((w.extract? fits).map (·.1), (w.extract? fits).elim w.cells (·.2.cells)) := by
  rw [WaiterArrays.takeLoop_eq w.size_eq]
  cases taken : w.extract? fits with
  | none =>
    have missing : Cells.extractFirst fits w.cells = none := by
      unfold Slots.extract? at taken
      split at taken
      · assumption
      · cases taken
    rw [missing]
    rfl
  | some r =>
    rw [Slots.extract?_cells taken]
    rfl

/-- The loops do to the arrays what the calls do to the lines. -/
theorem perform_arrays (op : QueueCall) (c : Channel) :
    op.exec c.arrays = ((op.perform c).1, (op.perform c).2.arrays) := by
  cases op with
  | pushSender tid =>
    simp only [QueueCall.exec, QueueCall.perform, Channel.arrays, Channel.pushSender, push_cells]
    cases c.sendWaiters.insert? tid <;> rfl
  | popSender =>
    simp only [QueueCall.exec, QueueCall.perform, Channel.arrays, Channel.popSender, WaiterArrays.pop, Slots.pop?,
      take_cells]
    cases c.sendWaiters.extract? (fun _ => true) <;> rfl
  | pushReceiver tid =>
    simp only [QueueCall.exec, QueueCall.perform, Channel.arrays, Channel.pushReceiver, push_cells]
    cases c.recvWaiters.insert? tid <;> rfl
  | popReceiver =>
    simp only [QueueCall.exec, QueueCall.perform, Channel.arrays, Channel.popReceiver, WaiterArrays.pop, Slots.pop?,
      take_cells]
    cases c.recvWaiters.extract? (fun _ => true) <;> rfl
  | removeReceiver tid =>
    simp only [QueueCall.exec, QueueCall.perform, Channel.arrays, Channel.removeReceiver, WaiterArrays.remove,
      take_cells]
    cases c.recvWaiters.extract? (· == tid) <;> rfl

theorem insert_push {xs : List Nat} (h : w.Packed xs) (tid : Nat) :
    (w.insert? tid).isSome = (Fifo.push maxWaiters tid xs).1 ∧
      ((w.insert? tid).getD w).Packed (Fifo.push maxWaiters tid xs).2 := by
  unfold Fifo.push
  by_cases room : xs.length < maxWaiters
  · obtain ⟨t, placed, packed⟩ := h.insert tid room
    rw [placed, if_pos room]
    exact ⟨rfl, packed⟩
  · rw [h.insert_full tid room, if_neg room]
    exact ⟨rfl, h⟩

theorem pop_front {xs : List Nat} (h : w.Packed xs) :
    w.pop?.map (·.1) = (Fifo.pop xs).1 ∧ ((w.pop?.map (·.2)).getD w).Packed (Fifo.pop xs).2 := by
  cases xs with
  | nil =>
    rw [h.pop_nil]
    exact ⟨rfl, h⟩
  | cons x xs =>
    obtain ⟨t, popped, packed⟩ := h.pop_cons
    rw [popped]
    exact ⟨rfl, packed⟩

theorem extract_remove {xs : List Nat} (h : w.Packed xs) (tid : Nat) :
    (((w.extract? (· == tid)).map (·.2)).getD w).Packed (Fifo.remove tid xs) := by
  rw [Fifo.remove, List.erase_eq_eraseP']
  cases first : xs.find? (· == tid) with
  | none =>
    have others : ∀ x ∈ xs, ¬(x == tid) = true := List.find?_eq_none.mp first
    rw [h.extract_none first, List.eraseP_of_forall_not others]
    exact h
  | some a =>
    obtain ⟨t, taken, packed⟩ := h.extract first
    rw [taken]
    exact packed

/-- Each call answers as the queues do, and keeps the lines. -/
theorem perform_lines (op : QueueCall) (h : c.Lines q) :
    (op.perform c).1 = (op.spec q).1 ∧ (op.perform c).2.Lines (op.spec q).2 := by
  obtain ⟨ss, rs⟩ := q
  obtain ⟨send, recv⟩ := h
  cases op with
  | pushSender tid =>
    obtain ⟨reply, packed⟩ := insert_push send tid
    simp only [QueueCall.perform, QueueCall.spec, Channel.pushSender, Option.isSome_map, reply]
    refine ⟨trivial, ?_⟩
    cases placed : c.sendWaiters.insert? tid <;> rw [placed] at packed <;> exact ⟨packed, recv⟩
  | popSender =>
    obtain ⟨reply, packed⟩ := pop_front send
    simp only [QueueCall.perform, QueueCall.spec, Channel.popSender, Option.map_map]
    refine ⟨congrArg _ reply, ?_⟩
    cases popped : c.sendWaiters.pop? <;> rw [popped] at packed <;> exact ⟨packed, recv⟩
  | pushReceiver tid =>
    obtain ⟨reply, packed⟩ := insert_push recv tid
    simp only [QueueCall.perform, QueueCall.spec, Channel.pushReceiver, Option.isSome_map, reply]
    refine ⟨trivial, ?_⟩
    cases placed : c.recvWaiters.insert? tid <;> rw [placed] at packed <;> exact ⟨send, packed⟩
  | popReceiver =>
    obtain ⟨reply, packed⟩ := pop_front recv
    simp only [QueueCall.perform, QueueCall.spec, Channel.popReceiver, Option.map_map]
    refine ⟨congrArg _ reply, ?_⟩
    cases popped : c.recvWaiters.pop? <;> rw [popped] at packed <;> exact ⟨send, packed⟩
  | removeReceiver tid =>
    have packed := extract_remove recv tid
    simp only [QueueCall.perform, QueueCall.spec, Channel.removeReceiver]
    refine ⟨trivial, ?_⟩
    cases taken : c.recvWaiters.extract? (· == tid) <;> rw [taken] at packed <;> exact ⟨send, packed⟩

theorem refines_arrays : Refines (fun op c => some (QueueCall.perform op c)) QueueCall.exec
    fun c ws => c.arrays = ws := by
  rintro op c ws rfl
  rw [perform_arrays]
  exact ⟨_, rfl, rfl⟩

theorem refines_queues : Refines (fun op c => some (QueueCall.perform op c)) QueueCall.spec Channel.Lines := by
  intro op c q h
  obtain ⟨reply, lines⟩ := perform_lines op h
  refine ⟨(op.perform c).2, ?_, lines⟩
  simp only [← reply]

theorem fresh_lines (id : Nat) : (Channel.fresh id).Lines ([], []) := ⟨Slots.packed_empty, Slots.packed_empty⟩

end Lines

/-- The occupied slots are a prefix with the threads of the queue. -/
def Occupied (ws : List (Option Nat)) (q : List Nat) : Prop :=
  ws = q.map some ++ List.replicate (maxWaiters - q.length) none ∧ q.length ≤ maxWaiters

/-- Every sequence of calls gets the replies of two queues of eight places, and leaves these queues in the first slots
of the arrays. -/
theorem waiter_arrays_fifo (ops : List QueueCall) :
    (repliesOf QueueCall.exec ops .new).1 = (repliesOf QueueCall.spec ops ([], [])).1 ∧
      Occupied (repliesOf QueueCall.exec ops .new).2.sendWaiters (repliesOf QueueCall.spec ops ([], [])).2.1 ∧
      Occupied (repliesOf QueueCall.exec ops .new).2.recvWaiters (repliesOf QueueCall.spec ops ([], [])).2.2 := by
  obtain ⟨c, ran, arrays⟩ := refines_arrays.run ops (rfl : (Channel.fresh 0).arrays = .new)
  obtain ⟨c', ran', lines⟩ := refines_queues.run ops (fresh_lines 0)
  have fresh : (Channel.fresh 0).arrays = .new := rfl
  obtain ⟨same, rfl⟩ := Prod.mk.inj (Option.some.inj (ran.symm.trans ran'))
  rw [fresh] at same arrays
  rw [← arrays]
  exact ⟨same, lines.1, lines.2⟩

end CapsuleOS
