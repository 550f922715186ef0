import CapsuleOS.Lib.Outcome
import CapsuleOS.Shared.Status

/-!
# The futex table

Sixty-four buckets, each with eight waiter cells linked into a list by `next`. A bucket is found by
a hash of the address and the address stored in it is not compared. Here are the parts of the futex
calls that touch the table alone.
-/
namespace CapsuleOS

open Lib

def maxFutexWaiters : Nat := 8
def futexBuckets : Nat := 64

structure FutexWaiter where
  threadId : Nat
  next : Option (Fin maxFutexWaiters)
  deriving DecidableEq

structure FutexEntry where
  addr : Nat
  waiters : Fin maxFutexWaiters → Option FutexWaiter
  waiterCount : Nat
  head : Option (Fin maxFutexWaiters)
  tail : Option (Fin maxFutexWaiters)

namespace FutexEntry

def new (addr : Nat) : FutexEntry where
  addr
  waiters _ := none
  waiterCount := 0
  head := none
  tail := none

def setWaiter (e : FutexEntry) (i : Fin maxFutexWaiters) (w : Option FutexWaiter) : FutexEntry :=
  { e with waiters := Function.update e.waiters i w }

/-- Set the `next` of a cell, if it is occupied. -/
def link (e : FutexEntry) (i : Fin maxFutexWaiters) (next : Option (Fin maxFutexWaiters)) :
    FutexEntry := e.setWaiter i ((e.waiters i).map fun w => { w with next })

def firstFree (e : FutexEntry) : Option (Fin maxFutexWaiters) :=
  (List.finRange maxFutexWaiters).find? fun i => (e.waiters i).isNone

def addWaiter (e : FutexEntry) (threadId : Nat) : Option FutexEntry :=
  if e.waiterCount ≥ maxFutexWaiters then none
  else match e.firstFree with
    | none => none
    | some i =>
      let e := e.setWaiter i (some { threadId, next := none })
      let e := { e with waiterCount := e.waiterCount + 1 }
      match e.head, e.tail with
      | none, _ => some { e with head := some i, tail := some i }
      | some _, some t => some { e.link t (some i) with tail := some i }
      | some _, none => some e

/-- Follow the list from `cur` and unlink the first node of the thread. `none` stands for a list
that runs in a circle. -/
def removeLoop (threadId : Nat) : Nat → Option (Fin maxFutexWaiters) →
    Option (Fin maxFutexWaiters) → FutexEntry → Option FutexEntry
  | _, _, none, e => some e
  | 0, _, some _, _ => none
  | fuel + 1, prev, some i, e =>
    match e.waiters i with
    | some w =>
      if w.threadId = threadId then
        let e := match prev with
          | some p => e.link p w.next
          | none => { e with head := w.next }
        let e := if e.tail = some i then { e with tail := prev } else e
        some { e.setWaiter i none with waiterCount := wsub e.waiterCount 1 }
      else removeLoop threadId fuel (some i) w.next e
    | none => removeLoop threadId fuel (some i) none e

def removeWaiter (e : FutexEntry) (threadId : Nat) : Option FutexEntry :=
  removeLoop threadId (maxFutexWaiters + 1) none e.head e

/-- Empty cells along the list and collect the threads to wake. -/
def wakeLoop : Nat → Option (Fin maxFutexWaiters) → FutexEntry → FutexEntry × List Nat
  | 0, _, e => (e, [])
  | _ + 1, none, e => (e, [])
  | count + 1, some i, e =>
    match e.waiters i with
    | none => (e.setWaiter i none, [])
    | some w =>
      let r := wakeLoop count w.next (e.setWaiter i none)
      (r.1, w.threadId :: r.2)

/-- After any wake the whole list is dropped, also when the count stopped it. At most eight cells
can be emptied, so a larger count changes nothing. -/
def wakeFromEntry (e : FutexEntry) (count : Nat) : FutexEntry × List Nat :=
  let r := wakeLoop (min count (maxFutexWaiters + 1)) e.head e
  if r.2 = [] then r
  else ({ r.1 with head := none, tail := none, waiterCount := 0 }, r.2)

end FutexEntry

abbrev FutexTable := Fin futexBuckets → Option FutexEntry

namespace FutexTable

def hashAddr (addr : Nat) : Fin futexBuckets := ⟨addr / 8 % futexBuckets, Nat.mod_lt _ (by decide)⟩

def getOrCreateEntry (table : FutexTable) (addr : Nat) : FutexEntry :=
  (table (hashAddr addr)).getD (FutexEntry.new addr)

def set (table : FutexTable) (addr : Nat) (e : FutexEntry) : FutexTable :=
  Function.update table (hashAddr addr) (some e)

end FutexTable

end CapsuleOS
