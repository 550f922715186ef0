import CapsuleOS.Lib.Refines
import CapsuleOS.Sync.FutexLists

/-!
# The waiters of a bucket over runs

A bucket is a queue, whatever threads are added and removed. Its cells are reused in the order of their
indices, so that the list soon runs through the cells in another order.
-/
namespace CapsuleOS

open Lib

inductive WaiterOp where
  | addWaiter (threadId : Nat)
  | removeWaiter (threadId : Nat)

namespace WaiterOp

/-- The replies of `add_waiter` are kept. -/
def exec : WaiterOp → FutexEntry → Option (Option Bool × FutexEntry)
  | .addWaiter threadId, e =>
    match e.addWaiter threadId with
    | some e' => some (some true, e')
    | none => some (some false, e)
  | .removeWaiter threadId, e => (e.removeWaiter threadId).map fun e' => (none, e')

/-- The calls on a queue of threads. -/
def spec : WaiterOp → List Nat → Option Bool × List Nat
  | .addWaiter threadId, q => (Fifo.push maxFutexWaiters threadId q).map some id
  | .removeWaiter threadId, q => (none, Fifo.remove threadId q)

end WaiterOp

namespace FutexEntry

variable {e : FutexEntry} {path p q : FutexPath} {tid : Nat}

/-- The list from head to tail is the path, which passes every occupied cell once. -/
structure Linked (e : FutexEntry) (path : FutexPath) : Prop extends e.Lists path where
  occupied : ∀ i, (e.waiters i).isSome ↔ i ∈ path.map (·.1)
  last : ∀ i, e.tail = some i → ∃ w, e.waiters i = some w ∧ w.next = none

theorem Lists.linked (h : e.Lists path) : e.Linked path := by
  refine ⟨h, fun i => ⟨fun some_ => ?_, fun mem => ?_⟩, fun i tail => ?_⟩
  · by_contra away
    rw [h.free i away] at some_
    cases some_
  · obtain ⟨⟨j, a⟩, mem_path, rfl⟩ := List.mem_map.mp mem
    obtain ⟨p, q, rfl⟩ := List.append_of_mem mem_path
    obtain ⟨_, _, _, w, cell, _⟩ := Links.seg_append.mp h.seg
    rw [cell]
    rfl
  · rw [h.tail_eq] at tail
    rcases List.eq_nil_or_concat' path with rfl | ⟨p, ⟨j, a⟩, rfl⟩
    · cases tail
    · rw [List.getLast?_concat] at tail
      obtain rfl : j = i := Option.some.inj tail
      obtain ⟨_, w, cell, _, next⟩ := h.seg.last
      exact ⟨w, cell, next⟩

/-- A bucket with a list of these threads. -/
def Queues (e : FutexEntry) (q : List Nat) : Prop := ∃ path, e.Lists path ∧ path.map (·.2) = q

theorem refines_queue : Refines WaiterOp.exec WaiterOp.spec Queues := by
  rintro op e q ⟨path, lists, rfl⟩
  cases op with
  | addWaiter tid =>
    by_cases room : path.length < maxFutexWaiters
    · obtain ⟨i, e', added, lists'⟩ := lists.addWaiter room tid
      have short : (path.map (·.2)).length < maxFutexWaiters := by rwa [List.length_map]
      refine ⟨e', ?_, path ++ [(i, tid)], lists', ?_⟩
      · simp only [WaiterOp.exec, added, WaiterOp.spec, Fifo.push, if_pos short]
        rfl
      · simp only [WaiterOp.spec, Fifo.push, if_pos short]
        simp
    · have full := lists.addWaiter_full room tid
      have long : ¬(path.map (·.2)).length < maxFutexWaiters := by rwa [List.length_map]
      refine ⟨e, ?_, path, lists, ?_⟩
      · simp only [WaiterOp.exec, full, WaiterOp.spec, Fifo.push, if_neg long]
        rfl
      · simp only [WaiterOp.spec, Fifo.push, if_neg long]
        rfl
  | removeWaiter tid =>
    obtain ⟨e', path', removed, lists', rest⟩ := lists.remove_first tid
    refine ⟨e', ?_, path', lists', rest⟩
    simp only [WaiterOp.exec, removed, Option.map_some]
    rfl

end FutexEntry

/-- Every sequence of calls returns, with the replies of a queue of eight places, and leaves one list from the head
to the tail through all occupied cells, with the threads in the order of the queue. -/
theorem waiter_list_fifo (addr : Nat) (ops : List WaiterOp) : ∃ e path,
    replies WaiterOp.exec ops (.new addr) = some ((repliesOf WaiterOp.spec ops []).1, e) ∧
      e.Linked path ∧ path.map (·.2) = (repliesOf WaiterOp.spec ops []).2 := by
  obtain ⟨e, ran, path, lists, threads⟩ := FutexEntry.refines_queue.run ops ⟨[], FutexEntry.new_lists addr, rfl⟩
  exact ⟨e, path, ran, lists.linked, threads⟩

end CapsuleOS
