import CapsuleOS.Shared.Status

/-!
# Ports

A ring of sixteen packet cells and at most one registered waiter. Here are the parts of the port
calls that touch the port alone; the calls themselves block threads and stand with the scheduler.
-/
namespace CapsuleOS

def portQueueMax : Nat := 16

structure PortPacket where
  key : Nat
  trigger : Nat
  status : Int
  bytes : List UInt8
  deriving DecidableEq

structure Port where
  id : Nat
  queueLen : Nat
  queue : Fin portQueueMax → Option PortPacket
  head : Fin portQueueMax
  tail : Fin portQueueMax
  waiter : Option Nat

namespace Port

def start : Fin portQueueMax := ⟨0, by decide⟩

/-- `Port::new`, without the page that holds the ring. -/
def new (id queueLen : Nat) : Except Status Port :=
  if queueLen = 0 ∨ queueLen > portQueueMax then .error .invalidArgs
  else .ok {
    id
    queueLen
    queue := fun _ => none
    head := start
    tail := start
    waiter := none }

/-- `(i + 1) % PORT_QUEUE_MAX`. -/
def advance (i : Fin portQueueMax) : Fin portQueueMax :=
  ⟨(i.val + 1) % portQueueMax, Nat.mod_lt _ (by decide)⟩

/-- Take the packet under the head, if the ring is not empty; `next` becomes the new head. -/
def takeFront (p : Port) (next : Fin portQueueMax) : Option (PortPacket × Port) :=
  if p.head = p.tail then none
  else (p.queue p.head).map fun pkt =>
    (pkt, { p with queue := Function.update p.queue p.head none, head := next })

/-- The ring part of `Port::queue`. -/
def append (p : Port) (packet : PortPacket) : Option Port :=
  if advance p.tail = p.head then none
  else some { p with queue := Function.update p.queue p.tail (some packet), tail := advance p.tail }

end Port

end CapsuleOS
