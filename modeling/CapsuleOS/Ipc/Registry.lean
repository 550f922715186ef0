import CapsuleOS.Ipc.Channel

/-!
# Channel creation and the service registry

`sys_channel_create`, `sys_channel_register` and `sys_channel_lookup`. The blocks in which the two
new endpoints are boxed come from the heap allocator; their addresses are arguments here.
-/
namespace CapsuleOS

open Lib

inductive LookupResult where
  | connected (hv : Nat)
  | blocked
  deriving DecidableEq

namespace Kernel

/-! ## Creating a pair -/

/-- `Channel::new`. -/
def newChannel : KernelM Channel := fun k =>
  .ok (Channel.fresh k.channelIdCounter)
    { k with channelIdCounter := (k.channelIdCounter + 1) % 2 ^ 32 }

def channelRights : Nat := Rights.read ||| Rights.write

/-- Box an endpoint at the address `a` and put it into the table. -/
def addChannel (tab a : Nat) (c : Channel) : KernelM Nat := do
  Prog.modify fun k => k.setChan a (some c)
  addHandle tab (.channel a) channelRights

/-- `with_channel(h, rights, |c| c.peer = Some(q))`. -/
def setPeer (tab h q : Nat) : KernelM Unit := do
  let p ← withChannel tab h channelRights
  let c ← deref p
  Prog.modify fun k => k.setChan p (some { c with peer := some q })

/-- The common part of `sys_channel_create` and `sys_channel_lookup`. When the second endpoint does
not fit, the first stays in the table. -/
def createPair (tab a₀ a₁ : Nat) : KernelM (Nat × Nat) := do
  let c₀ ← newChannel
  let c₁ ← newChannel
  let h₀ ← addChannel tab a₀ c₀
  let h₁ ← addChannel tab a₁ c₁
  let p₀ ← withChannel tab h₀ channelRights
  let p₁ ← withChannel tab h₁ channelRights
  setPeer tab h₀ p₁
  setPeer tab h₁ p₀
  return (h₀, h₁)

def sysChannelCreate (tab a₀ a₁ : Nat) : KernelM (Nat × Nat) := createPair tab a₀ a₁

/-! ## The registry -/

def serviceNameMax : Nat := 16

def registerService (name : List UInt8) (ptr : Nat) : KernelM Unit := fun k =>
  if name.length > serviceNameMax ∨ name = [] then .err .invalidArgs k
  else
    match k.registry.find? (·.name == name) with
    | some _ => .err .alreadyExists k
    | none =>
      match k.registry.insert? ⟨name, ptr⟩ with
      | some r => .ok () { k with registry := r }
      | none => .err .noMemory k

def lookupService (name : List UInt8) : KernelM Nat := fun k =>
  if name.length > serviceNameMax ∨ name = [] then .err .invalidArgs k
  else
    match k.registry.find? (·.name == name) with
    | some e => .ok e.channelPtr k
    | none => .err .notFound k

/-- The name has been copied from the caller, at most sixteen bytes of it. -/
def sysChannelRegister (tab : Nat) (name : List UInt8) (hv : Nat) : KernelM Unit := do
  let ptr ← withChannel tab hv channelRights
  registerService (name.take serviceNameMax) ptr

/-- The server's end goes to the peer of the registered endpoint, in an empty message. When nobody
reads there, the lookup waits in that write, and the rest of it is to return the client's handle. -/
def sysChannelLookup (cur tab : Nat) (name : List UInt8) (a₀ a₁ : Nat) : KernelM LookupResult := do
  let service ← lookupService (name.take serviceNameMax)
  let (hClient, hServer) ← createPair tab a₀ a₁
  let c ← deref service
  match c.peer with
  | some q =>
    match ← channelWrite cur q [] [hServer] with
    | .blocked => return .blocked
    | _ => return .connected hClient
  | none => Prog.throw .peerClosed

end Kernel

end CapsuleOS
