import CapsuleOS.Ipc.Shelter

/-!
# The service registry in every run

The registry keeps a pointer to the endpoint it was given, and nothing takes an entry out when the
endpoint is closed; names are cut to sixteen bytes on both sides. Beside the kernel each run here keeps a
book: for every name, in full, the endpoint most recently accepted under it, struck out once it is no
longer open. In runs whose steps leave registered endpoints open, and accept only short names and open
endpoints, the registry is always what the book says.
-/
namespace CapsuleOS

open Lib

namespace Kernel

variable {k k' : Kernel} {P : Nat → Option Nat → Prop}

theorem Paired.mutual (h : k.Paired) : k.Mutual := by
  intro p q s link
  obtain ⟨c, hc, eq⟩ := Option.map_eq_some_iff.mp link
  obtain ⟨peer, -⟩ := Prod.mk.inj eq
  obtain ⟨far, -, d, hd, back, -⟩ := h.linked hc peer
  exact ⟨far, d.state, by rw [links_some hd, back]⟩

/-! ## What leaves the registry alone -/

/-- The registry is what it was. -/
def SameRegistry (k k' : Kernel) : Prop := k'.registry = k.registry

instance : Std.Refl SameRegistry := ⟨fun _ => rfl⟩

instance : IsTrans Kernel SameRegistry := ⟨fun _ _ _ h h' => h'.trans h⟩

theorem sameRegistry_close (p : Nat) : Prog.Within SameRegistry (closeChannel p) := by
  refine within_closeChannel (fun _ _ _ => rfl) (fun k tids => ?_) p
  obtain ⟨threads, queues, eq⟩ := wakeAll_eq k tids
  rw [eq]
  rfl

theorem sameRegistry_handles : HandleFrame SameRegistry where
  counter _ _ := rfl
  table _ _ _ := rfl
  mm _ _ := rfl
  drop := within_drop sameRegistry_close fun _ _ => rfl

theorem sameRegistry_calls : ChannelFrame SameRegistry where
  calls := sameRegistry_handles.calls
  thread _ _ _ := rfl
  wake k tids := by
    obtain ⟨threads, queues, eq⟩ := wakeAll_eq k tids
    rw [eq]
    rfl
  chan _ _ _ := rfl

theorem within_withChannel {R : Kernel → Kernel → Prop} [Std.Refl R] [IsTrans Kernel R]
    (tab hv rights : Nat) : Prog.Within R (withChannel tab hv rights) := by
  refine (within_findSlot tab hv rights).bind fun s => ?_
  cases s.object <;> first | exact .pure _ | exact .throw _

theorem sameRegistry_createPair (tab a₀ a₁ : Nat) : Prog.Within SameRegistry (createPair tab a₀ a₁) := by
  have fresh : Prog.Within SameRegistry newChannel := fun _ => rfl
  have add : ∀ a c, Prog.Within SameRegistry (addChannel tab a c) := fun a c =>
    (Prog.Within.modify fun k => sameRegistry_calls.chan k a _).bind fun _ =>
      sameRegistry_handles.addHandle _ _ _
  have set : ∀ h q, Prog.Within SameRegistry (setPeer tab h q) := fun h q =>
    (within_withChannel _ _ _).bind fun p => (within_deref p).bind fun c =>
      .modify fun k => sameRegistry_calls.chan k p _
  refine fresh.bind fun c₀ => fresh.bind fun c₁ => (add _ _).bind fun h₀ => (add _ _).bind fun h₁ => ?_
  refine (within_withChannel _ _ _).bind fun p₀ => (within_withChannel _ _ _).bind fun p₁ => ?_
  exact (set _ _).bind fun _ => (set _ _).bind fun _ => .pure _

/-! ## Creating a pair next to the sheltered endpoints -/

/-- A new endpoint, not yet linked. -/
theorem Sheltered.born (h : Sheltered P k) {a : Nat} (dead : k.chans a = none) (id : Nat) :
    Sheltered P (k.setChan a (some (Channel.fresh id))) := by
  have unlinked := links_none dead
  constructor
  · intro p q s link
    rw [links_setChan] at link
    split_ifs at link with new
    · cases link
    · obtain ⟨far, s', back⟩ := h.links p q s link
      have ne : q ≠ a := by
        rintro rfl
        rw [unlinked] at back
        cases back
      refine ⟨far, s', ?_⟩
      rw [links_setChan, if_neg ne]
      exact back
  · intro p o mem
    have ne : p ≠ a := by
      rintro rfl
      have link := h.opened p o mem
      rw [unlinked] at link
      cases link
    rw [links_setChan, if_neg ne]
    exact h.opened p o mem

/-- An endpoint at a dead address is neither sheltered nor the peer of a sheltered one. -/
theorem Sheltered.foreign_of_dead (h : Sheltered P k) {a : Nat} (dead : k.chans a = none) :
    Foreign P (.channel a) := by
  have unlinked := links_none dead
  rintro p o mem r ⟨⟩
  have link := h.opened p o mem
  constructor
  · rintro rfl
    rw [unlinked] at link
    cases link
  · rintro rfl
    obtain ⟨-, _, back⟩ := h.links p a _ link
    rw [unlinked] at back
    cases back

/-- Creation in a table without room for both endpoints fails, and closes nothing but them. -/
theorem createPair_full {tab a₀ a₁ : Nat} (h : Sheltered P k) (unused : k.Unused a₀ a₁)
    (full : ¬ k.RoomFor tab 2) :
    Prog.Post (createPair tab a₀ a₁) k (fun _ _ => False) (Sheltered P) := by
  obtain ⟨ne, dead₀, dead₁⟩ := unused
  have foreign₀ := h.foreign_of_dead dead₀
  have foreign₁ := h.foreign_of_dead dead₁
  set k₀ : Kernel := { k with channelIdCounter := (k.channelIdCounter + 1) % 2 ^ 32 } with hk₀
  set k₁ : Kernel := { k₀ with channelIdCounter := (k₀.channelIdCounter + 1) % 2 ^ 32 } with hk₁
  have h₁ : Sheltered P k₁ := h.of_chans rfl
  have born₀ := h₁.born (a := a₀) dead₀ k.channelIdCounter
  refine .congr (Prog.bind_ok (show newChannel k = .ok (Channel.fresh k.channelIdCounter) k₀ from rfl)) ?_
  refine .congr (Prog.bind_ok (show newChannel k₀ = .ok (Channel.fresh k₀.channelIdCounter) k₁ from rfl)) ?_
  have first : Prog.Post (addChannel tab a₀ (Channel.fresh k.channelIdCounter)) k₁
      (fun _ k₂ => Sheltered P k₂ ∧ k₂.chans a₁ = none ∧ ¬(k₂.tables tab).occupants.length < maxHandles)
      (Sheltered P) := by
    refine .modify_bind ((addHandle_sheltered born₀ (Or.inr foreign₀)).mono (fun _ k₂ added => ?_)
      fun _ dropped => dropped.1)
    obtain ⟨h₂, put⟩ := added
    refine ⟨h₂, ?_, ?_⟩
    · rw [put.chans, setChan_chans_ne _ (Ne.symm ne)]
      exact dead₁
    · have length : (k₂.tables tab).occupants.length = (k.tables tab).occupants.length + 1 := put.length
      unfold RoomFor at full
      omega
  refine first.bind fun h₀ k₂ added => ?_
  obtain ⟨h₂, dead₂, full₂⟩ := added
  have born₁ := h₂.born dead₂ k₀.channelIdCounter
  have second : Prog.Post (addChannel tab a₁ (Channel.fresh k₀.channelIdCounter)) k₂
      (fun _ _ => False) (Sheltered P) := by
    refine .modify_bind (addHandle_full full₂ ?_)
    have dropped := Prog.Post.of_within (m := dropObject (.channel a₁))
      (s := (k₂.setChan a₁ (some (Channel.fresh k₀.channelIdCounter))).bumpHandleValue)
      (R := fun s s' => Sheltered P s → Sheltered P s') fun s h => h.drop foreign₁
    have ready : Sheltered P (k₂.setChan a₁ (some (Channel.fresh k₀.channelIdCounter))).bumpHandleValue :=
      born₁.of_chans rfl
    exact dropped.mono (fun _ _ kept => kept ready) fun _ kept => kept ready
  exact second.bind fun _ _ never => never.elim

/-- Creation with room for both leaves everything else as it was. -/
theorem createPair_room {tab a₀ a₁ : Nat} (h : Sheltered P k) (unused : k.Unused a₀ a₁)
    (room : k.RoomForPair tab) :
    ∃ pair k', createPair tab a₀ a₁ k = .ok pair k' ∧ Sheltered P k' ∧ k'.thread? = k.thread? ∧
      NewEntries tab a₀ a₁ k k' ∧ ∀ r, k.chans r ≠ none → k'.chans r = k.chans r := by
  obtain ⟨ne, dead₀, dead₁⟩ := unused
  obtain ⟨pair, k', c₀, c₁, ran, threads, entries, peer₀, open₀, peer₁, open₁, chans⟩ :=
    createPair_ok room ne
  have others : ∀ r, k.chans r ≠ none → k'.chans r = k.chans r := by
    intro r live
    rw [chans, if_neg (by rintro rfl; exact live dead₁), if_neg (by rintro rfl; exact live dead₀)]
  have kept : ∀ r x, k.links r = some x → k'.links r = some x := by
    intro r x link
    have live : k.chans r ≠ none := fun dead => by simp [links_none dead] at link
    rw [links, others r live]
    exact link
  have at₀ : k'.links a₀ = some (some a₁, .opened) := by
    rw [links_some (by rw [chans, if_neg ne, if_pos rfl]), peer₀, open₀]
  have at₁ : k'.links a₁ = some (some a₀, .opened) := by
    rw [links_some (by rw [chans, if_pos rfl]), peer₁, open₁]
  refine ⟨pair, k', ran, ⟨fun p q s link => ?_, fun p o mem => kept p _ (h.opened p o mem)⟩, threads,
    entries, others⟩
  by_cases one : p = a₁
  · subst one
    rw [at₁] at link
    cases link
    exact ⟨ne, _, at₀⟩
  · by_cases zero : p = a₀
    · subst zero
      rw [at₀] at link
      cases link
      exact ⟨Ne.symm ne, _, at₁⟩
    · have old : k.links p = some (some q, s) := by
        rw [links, chans, if_neg one, if_neg zero] at link
        exact link
      obtain ⟨far, s', back⟩ := h.links p q s old
      exact ⟨far, s', kept q _ back⟩

theorem createPair_sheltered {tab a₀ a₁ : Nat} (h : Sheltered P k) (unused : k.Unused a₀ a₁)
    (fits : k.RoomFor tab 2 → k.RoomForPair tab) : Sheltered P (createPair tab a₀ a₁ k).state := by
  by_cases room : k.RoomFor tab 2
  · obtain ⟨pair, k', ran, h', -⟩ := createPair_room h unused (fits room)
    rw [ran]
    exact h'
  · exact ((createPair_full h unused room).mono (fun _ _ never => never.elim) fun _ => id).state

/-! ## A lookup -/

section Lookup

variable {tab a₀ a₁ cur q n : Nat}

theorem NewEntries.room {rtab : Nat} (entries : NewEntries tab a₀ a₁ k k')
    (room : k.RoomFor rtab (n + 2)) : k'.RoomFor rtab n := by
  unfold RoomFor at *
  by_cases same : rtab = tab
  · subst same
    obtain ⟨s₀, s₁, -, -, perm⟩ := entries.table
    have length := perm.length_eq
    simp only [List.length_cons] at length
    omega
  · rw [entries.others rtab same]
    omega

theorem NewEntries.foreignTable {rtab : Nat} (entries : NewEntries tab a₀ a₁ k k')
    (foreign : ForeignTable P rtab k) (foreign₀ : Foreign P (.channel a₀))
    (foreign₁ : Foreign P (.channel a₁)) : ForeignTable P rtab k' := by
  intro s mem
  by_cases same : rtab = tab
  · subst same
    obtain ⟨s₀, s₁, object₀, object₁, perm⟩ := entries.table
    rcases List.mem_cons.mp (perm.mem_iff.mp mem) with rfl | rest
    · exact object₁ ▸ foreign₁
    · rcases List.mem_cons.mp rest with rfl | old
      · exact object₀ ▸ foreign₀
      · exact foreign s old
  · rw [entries.others rtab same] at mem
    exact foreign s mem

/-- Whom a call serves depends on its endpoint and the peer. -/
theorem served_same {side : Side} (threads : k'.thread? = k.thread?) (own : k'.chans q = k.chans q)
    (far : ∀ c p, k.chans q = some c → c.peer = some p → k'.chans p = k.chans p) :
    (k'.served side q).map Prod.fst = (k.served side q).map Prod.fst := by
  cases hc : k.chans q with
  | none => simp [served, own, hc]
  | some c =>
    cases peer : c.peer with
    | none => simp [served, own, hc, peer]
    | some p =>
      cases hd : k.chans p with
      | none => simp [served, own, hc, peer, far c p hc peer, hd]
      | some d =>
        cases pop : side.pop d with
        | none => simp [served, own, hc, peer, far c p hc peer, hd, pop]
        | some r =>
          cases hw : k.thread? r.1 <;>
            by_cases closed : c.state = .closed <;>
              simp [served, own, hc, peer, far c p hc peer, hd, pop, threads, hw, closed]

/-- What is safe to send with two more entries is safe to send after the creation. -/
theorem SafeToSend.created {s : ChannelState} {p : Nat} (safe : SafeToSend P cur q n 2 k)
    (h : Sheltered P k) (unused : k.Unused a₀ a₁) (threads : k'.thread? = k.thread?)
    (entries : NewEntries tab a₀ a₁ k k') (others : ∀ r, k.chans r ≠ none → k'.chans r = k.chans r)
    (link : k.links p = some (some q, s)) : SafeToSend P cur q n 0 k' := by
  have foreign₀ := h.foreign_of_dead unused.2.1
  have foreign₁ := h.foreign_of_dead unused.2.2
  have live : ∀ r x, k.links r = some x → k.chans r ≠ none := fun r x linked dead => by
    simp [links_none dead] at linked
  obtain ⟨-, s', back⟩ := h.links p q s link
  have same : (k'.served .recv q).map Prod.fst = (k.served .recv q).map Prod.fst := by
    refine served_same threads (others q (live q _ back)) fun c r hc peer => ?_
    rw [links_some hc, peer] at back
    cases back
    exact others p (live p _ link)
  have table : k'.tableOf cur = k.tableOf cur := by rw [tableOf, tableOf, threads]
  constructor
  · intro w k₁ tab' rtab found own theirs
    rw [found, Option.map_some] at same
    obtain ⟨⟨w', k₂⟩, found', eq⟩ := Option.map_eq_some_iff.mp same.symm
    obtain rfl : w' = w := eq
    rcases safe.pass w' k₂ tab' rtab found' (table ▸ own) theirs with room | foreign
    · exact Or.inl (entries.room (n := n) room)
    · exact Or.inr (entries.foreignTable foreign foreign₀ foreign₁)
  · intro nobody
    rw [nobody, Option.map_none] at same
    obtain ⟨stash, tables⟩ := safe.wait (Option.map_eq_none_iff.mp same.symm)
    refine ⟨stash.of_threads threads, fun tab' own => ?_⟩
    rcases tables tab' (table ▸ own) with none_ | room | foreign
    · exact Or.inl none_
    · exact Or.inr (Or.inl (entries.room (n := 2) room))
    · exact Or.inr (Or.inr (entries.foreignTable foreign foreign₀ foreign₁))

end Lookup

/-! ## Registering and finding -/

/-- The endpoint is live and open. -/
def opened (k : Kernel) (p : Nat) : Bool := (k.chans p).any (·.state == .opened)

theorem opened_iff {p : Nat} : k.opened p ↔ ∃ o, k.links p = some (o, .opened) := by
  cases hc : k.chans p with
  | none => simp [opened, hc, links_none hc]
  | some c => simp [opened, hc, links_some hc]

/-- `sys_channel_register` will enter the endpoint `ptr` under the name, or what it keeps of it. -/
structure Accepts (k : Kernel) (tab : Nat) (name : List UInt8) (hv ptr : Nat) : Prop where
  handle : withChannel tab hv channelRights k = .ok ptr k
  nonempty : name ≠ []
  unused : ∀ e ∈ k.registry.occupants, e.name ≠ name.take serviceNameMax
  room : k.registry.occupants.length < maxServices

theorem withChannel_cases (tab hv rights : Nat) (k : Kernel) :
    (∃ ptr, withChannel tab hv rights k = .ok ptr k) ∨ ∃ e, withChannel tab hv rights k = .err e k := by
  unfold withChannel
  rw [Prog.bind_apply, findSlot]
  cases (k.tables tab).find? (·.value == hv) with
  | none => exact Or.inr ⟨_, rfl⟩
  | some s =>
    by_cases rights_ok : checkRights s.rights rights = true
    · simp only [rights_ok, if_true]
      cases s.object <;> first | exact Or.inl ⟨_, rfl⟩ | exact Or.inr ⟨_, rfl⟩
    · simp only [rights_ok]
      exact Or.inr ⟨_, rfl⟩

theorem find?_name_none {name : List UInt8} : k.registry.find? (·.name == name) = none ↔
    ∀ e ∈ k.registry.occupants, e.name ≠ name := by
  rw [Slots.find?_eq, List.find?_eq_none]
  simp

/-- A registration enters an endpoint or changes nothing. -/
theorem sysChannelRegister_cases (tab : Nat) (name : List UInt8) (hv : Nat) (k : Kernel) :
    (∃ ptr r, k.Accepts tab name hv ptr ∧
        sysChannelRegister tab name hv k = .ok () { k with registry := r } ∧
        r.occupants.Perm (⟨name.take serviceNameMax, ptr⟩ :: k.registry.occupants)) ∨
      ∃ e, sysChannelRegister tab name hv k = .err e k := by
  rcases withChannel_cases tab hv channelRights k with ⟨ptr, handle⟩ | ⟨e, failed⟩
  · have run : sysChannelRegister tab name hv k = registerService (name.take serviceNameMax) ptr k := by
      rw [sysChannelRegister, Prog.bind_ok handle]
    rw [run, registerService]
    by_cases bad : (name.take serviceNameMax).length > serviceNameMax ∨ name.take serviceNameMax = []
    · rw [if_pos bad]
      exact Or.inr ⟨_, rfl⟩
    · rw [if_neg bad]
      cases find : k.registry.find? (·.name == name.take serviceNameMax) with
      | some e => exact Or.inr ⟨_, rfl⟩
      | none =>
        cases ins : k.registry.insert? ⟨name.take serviceNameMax, ptr⟩ with
        | none => exact Or.inr ⟨_, rfl⟩
        | some r =>
          have perm := Slots.insert?_perm ins
          have room : k.registry.occupants.length < maxServices := by
            have length := perm.length_eq
            have bound := Slots.occupants_length_le r
            rw [List.length_cons] at length
            omega
          have nonempty : name ≠ [] := by
            rintro rfl
            exact bad (Or.inr List.take_nil)
          exact Or.inl ⟨ptr, r, ⟨handle, nonempty, find?_name_none.mp find, room⟩, rfl, perm⟩
  · exact Or.inr ⟨e, by rw [sysChannelRegister, Prog.bind_err failed]⟩

theorem lookupService_cases (name : List UInt8) (k : Kernel) :
    (∃ e ∈ k.registry.occupants, e.name = name ∧ lookupService name k = .ok e.channelPtr k) ∨
      ((∀ e ∈ k.registry.occupants, e.name = name → name.length > serviceNameMax ∨ name = []) ∧
        ∃ e, lookupService name k = .err e k) := by
  unfold lookupService
  by_cases bad : name.length > serviceNameMax ∨ name = []
  · rw [if_pos bad]
    exact Or.inr ⟨fun _ _ _ => bad, _, rfl⟩
  · rw [if_neg bad]
    cases find : k.registry.find? (·.name == name) with
    | some e =>
      rw [Slots.find?_eq] at find
      exact Or.inl ⟨e, List.mem_of_find?_eq_some find, by simpa using List.find?_some find, rfl⟩
    | none =>
      exact Or.inr ⟨fun e mem eq => absurd eq (find?_name_none.mp find e mem), _, rfl⟩

end Kernel

namespace PeerOp

open Kernel

variable {k k' : Kernel} {P : Nat → Option Nat → Prop} {op : PeerOp}

/-! ## Steps that spare endpoints -/

/-- What the step may drop is not to be sheltered, and a pair is created under unused handle values. -/
def Spares (P : Nat → Option Nat → Prop) (k : Kernel) : PeerOp → Prop
  | .channel (.write cur self _ hs) => SafeToSend P cur self (hs.take 2).length 0 k
  | .channel (.read cur self _ _) => SafeToReceive P cur self k
  | .channel (.readWithTimeout cur self _ _ _) => SafeToReceive P cur self k
  | .channel (.close tab hv) => ∀ s, (k.tables tab).find? (·.value == hv) = some s → Foreign P s.object
  | .close ptr => Foreign P (.channel ptr)
  | .create tab _ _ => k.RoomFor tab 2 → k.RoomForPair tab
  | .lookup cur tab name _ _ => ∀ ptr, service k name = some ptr →
      (k.RoomFor tab 2 → k.RoomForPair tab) ∧
        ∀ q s, k.links ptr = some (some q, s) → SafeToSend P cur q 1 2 k
  | _ => True

theorem service_eq_some {name : List UInt8} {ptr : Nat} :
    service k name = some ptr ↔ lookupService (name.take serviceNameMax) k = .ok ptr k := by
  rcases lookupService_cases (name.take serviceNameMax) k with ⟨e, -, -, found⟩ | ⟨-, e, missing⟩
  · simp [service, found]
  · simp [service, missing]

theorem lookup_sheltered {cur tab a₀ a₁ : Nat} {name : List UInt8} (h : Sheltered P k)
    (unused : k.Unused a₀ a₁) (spares : Spares P k (.lookup cur tab name a₀ a₁))
    (live : ∀ ptr, service k name = some ptr → k.chans ptr ≠ none) :
    Sheltered P (sysChannelLookup cur tab name a₀ a₁ k).state := by
  rcases lookupService_cases (name.take serviceNameMax) k with ⟨e, -, -, found⟩ | ⟨-, e, missing⟩
  · have here := service_eq_some.mpr found
    obtain ⟨fits, safe⟩ := spares _ here
    rw [sysChannelLookup, Prog.bind_ok found]
    by_cases room : k.RoomFor tab 2
    · obtain ⟨⟨hClient, hServer⟩, k₂, ran, h₂, threads, entries, others⟩ :=
        createPair_room h unused (fits room)
      obtain ⟨c, hc⟩ := Option.ne_none_iff_exists'.mp (live _ here)
      have deref_ok : deref e.channelPtr k₂ = .ok c k₂ := by
        rw [deref, others _ (live _ here), hc]
      rw [Prog.bind_ok ran]
      simp only [Prog.bind_ok deref_ok]
      cases peer : c.peer with
      | none => exact h₂
      | some q =>
        have link : k.links e.channelPtr = some (some q, c.state) := by rw [links_some hc, peer]
        have safe₂ := (safe q _ link).created h unused threads entries others link
        have written : Sheltered P (channelWrite cur q [] [hServer] k₂).state :=
          channelWrite_sheltered h₂ safe₂
        simp only [Prog.bind_apply]
        cases out : channelWrite cur q [] [hServer] k₂ with
        | err e k₃ => rwa [out] at written
        | fault k₃ => rwa [out] at written
        | ok r k₃ =>
          rw [out] at written
          cases r <;> exact written
    · exact ((createPair_full h unused room).bind fun _ _ never => never.elim).state
  · rw [sysChannelLookup, Prog.bind_err missing]
    exact h

/-- Every step leaves open what it spares. -/
theorem exec_sheltered (h : Sheltered P k) (alloc : op.Allocates k) (spares : Spares P k op)
    (live : ∀ name ptr, service k name = some ptr → k.chans ptr ≠ none) :
    Sheltered P (op.exec k).state := by
  cases op with
  | channel op =>
    rw [exec, state_ignore]
    cases op with
    | write cur self data hs =>
      rw [ChannelOp.exec, ChannelOp.state_map]
      exact channelWrite_sheltered h spares
    | read cur self data hs =>
      rw [ChannelOp.exec, ChannelOp.state_map]
      exact readWith_sheltered h spares fun _ h₁ => waitReceiver_sheltered (h₁.of_chans rfl)
    | readWithTimeout cur self data hs ms =>
      rw [ChannelOp.exec, ChannelOp.state_map]
      exact readWith_sheltered h spares fun _ h₁ => waitReceiver_sheltered (h₁.of_chans rfl)
    | resume cur =>
      rw [ChannelOp.exec, ChannelOp.state_map]
      exact resume_sheltered h
    | close tab hv =>
      rw [ChannelOp.exec, ChannelOp.state_map]
      cases take : (k.tables tab).take? (·.value == hv) with
      | none =>
        have missing : removeWithRights tab hv k = .err .badHandle k := by
          simp [removeWithRights, take]
        rw [sysClose, Prog.bind_err missing]
        exact h
      | some r =>
        have removed : removeWithRights tab hv k =
            .ok (r.1.object, r.1.rights) (k.setTable tab r.2) := by simp [removeWithRights, take]
        rw [sysClose, Prog.bind_ok removed]
        have left : Sheltered P (k.setTable tab r.2) := h.of_chans rfl
        exact left.drop (spares r.1 (Slots.take?_find take))
    | tick => exact h.of_chans rfl
  | close ptr => exact h.close spares
  | create tab a₀ a₁ =>
    rw [exec, state_ignore]
    exact createPair_sheltered h alloc spares
  | register tab name hv =>
    rw [exec]
    rcases sysChannelRegister_cases tab name hv k with ⟨ptr, r, -, ran, -⟩ | ⟨e, failed⟩
    · rw [ran]
      exact h.of_chans rfl
    · rw [failed]
      exact h
  | lookup cur tab name a₀ a₁ =>
    rw [exec, state_ignore]
    exact lookup_sheltered h alloc spares (live name)

/-- Only a registration changes the registry. -/
theorem exec_registry (other : ∀ tab name hv, op ≠ .register tab name hv) :
    (op.exec k).state.registry = k.registry := by
  cases op with
  | channel op =>
    rw [exec, state_ignore]
    exact ChannelOp.within_exec sameRegistry_calls (fun _ => rfl) op k
  | close ptr => exact sameRegistry_close ptr k
  | create tab a₀ a₁ =>
    rw [exec, state_ignore]
    exact sameRegistry_createPair tab a₀ a₁ k
  | register tab name hv => exact absurd rfl (other tab name hv)
  | lookup cur tab name a₀ a₁ =>
    rw [exec, state_ignore]
    have quiet : Prog.Within SameRegistry (sysChannelLookup cur tab name a₀ a₁) := by
      refine Prog.Within.bind (fun k => ?_) fun ptr => (sameRegistry_createPair _ _ _).bind fun pair =>
        (within_deref ptr).bind fun c => ?_
      · rcases lookupService_cases (name.take serviceNameMax) k with ⟨e, -, -, found⟩ | ⟨-, e, missing⟩
        · rw [found]
          rfl
        · rw [missing]
          rfl
      · cases c.peer with
        | none => exact .throw _
        | some q =>
          refine (sameRegistry_calls.channelWrite [] [pair.2]).bind fun r => ?_
          cases r <;> exact .pure _
    exact quiet k

/-! ## The book -/

/-- What names stand for. -/
abbrev Book := List UInt8 → Option Nat

/-- What the step registers: the name, in full, and the endpoint behind the handle. -/
def registered (k : Kernel) : PeerOp → Option (List UInt8 × Nat)
  | .register tab name hv =>
    match sysChannelRegister tab name hv k, withChannel tab hv channelRights k with
    | .ok _ _, .ok ptr _ => some (name, ptr)
    | _, _ => none
  | _ => none

/-- Enter what the step registers. -/
def Book.enter (b : Book) (k : Kernel) (op : PeerOp) : Book :=
  match registered k op with
  | some (name, ptr) => Function.update b name (some ptr)
  | none => b

/-- The book after a step from `k` to `k'`: endpoints that are not open any more are struck out. -/
def Book.next (b : Book) (k k' : Kernel) (op : PeerOp) : Book := fun name =>
  (b.enter k op name).filter k'.opened

/-- Runs whose steps all satisfy `C`, with the book, which is empty at first. -/
inductive BookRun (C : Kernel → PeerOp → Prop) (k₀ : Kernel) : Book → Kernel → Prop where
  | nil : BookRun C k₀ (fun _ => none) k₀
  | step {b : Book} {k k' : Kernel} {op : PeerOp} (run : BookRun C k₀ b k) (cond : C k op)
      (steps : op.Steps k k') : BookRun C k₀ (b.next k k' op) k'

/-- Entries are open endpoints; a lookup that succeeds connects to what the book has under the name,
and one under a name that is not in the book fails. -/
structure RegistrySound (b : Book) (k : Kernel) : Prop where
  opened : ∀ e ∈ k.registry.occupants, k.opened e.channelPtr
  connects : ∀ cur tab name a₀ a₁ r k', sysChannelLookup cur tab name a₀ a₁ k = .ok r k' →
    ∃ p, b name = some p ∧ service k name = some p
  missing : ∀ cur tab name a₀ a₁, b name = none →
    ∃ e k', sysChannelLookup cur tab name a₀ a₁ k = .err e k'

/-- The open endpoints in the registry, with their peers. -/
def Registered (k : Kernel) (p : Nat) (o : Option Nat) : Prop :=
  (∃ e ∈ k.registry.occupants, e.channelPtr = p) ∧ k.links p = some (o, .opened)

/-- The step spares the registered endpoints, and what it registers is an open endpoint under a name that
is not cut. -/
structure Careful (k : Kernel) (op : PeerOp) : Prop where
  spares : Spares (Registered k) k op
  accepts : ∀ tab name hv ptr, op = .register tab name hv → k.Accepts tab name hv ptr →
    name.length < serviceNameMax ∧ k.opened ptr

/-- The registry is what the book says. -/
structure Kept (b : Book) (k : Kernel) : Prop where
  links : k.Mutual
  entries : ∀ name p, b name = some p ↔ ⟨name, p⟩ ∈ k.registry.occupants
  names : ∀ e ∈ k.registry.occupants, e.name ≠ [] ∧ e.name.length < serviceNameMax
  opened : ∀ e ∈ k.registry.occupants, k.opened e.channelPtr

variable {b : Book}

theorem Kept.sheltered (h : Kept b k) : Sheltered (Registered k) k := ⟨h.links, fun _ _ mem => mem.2⟩

theorem Kept.live (h : Kept b k) {name : List UInt8} {ptr : Nat} (found : service k name = some ptr) :
    k.chans ptr ≠ none := by
  rcases lookupService_cases (name.take serviceNameMax) k with ⟨e, mem, -, ok⟩ | ⟨-, e, missing⟩
  · rw [service, ok] at found
    cases found
    obtain ⟨o, link⟩ := opened_iff.mp (h.opened e mem)
    intro dead
    rw [links_none dead] at link
    cases link
  · rw [service, missing] at found
    cases found

/-- A lookup finds what the book has, for names of any length. -/
theorem Kept.service_eq (h : Kept b k) (name : List UInt8) : service k name = b name := by
  rcases lookupService_cases (name.take serviceNameMax) k with ⟨e, mem, eq, ok⟩ | ⟨none_, e, missing⟩
  · -- a name that has been cut has sixteen bytes, and no entry has
    have short := (h.names e mem).2
    have whole : name.take serviceNameMax = name := by
      rw [eq, List.length_take] at short
      exact List.take_of_length_le (by omega)
    rw [service, ok]
    refine ((h.entries name e.channelPtr).mpr ?_).symm
    rwa [← whole, ← eq]
  · rw [service, missing]
    cases here : b name with
    | none => rfl
    | some p =>
      have mem := (h.entries name p).mp here
      obtain ⟨nonempty, short⟩ := h.names _ mem
      have whole : name.take serviceNameMax = name := List.take_of_length_le short.le
      rcases none_ _ mem whole.symm with long | empty
      · rw [whole] at long
        exact absurd short (Nat.lt_asymm long)
      · rw [whole] at empty
        exact absurd empty nonempty

theorem Kept.sound (h : Kept b k) : RegistrySound b k where
  opened := h.opened
  connects cur tab name a₀ a₁ r k' ran := by
    obtain ⟨ptr, k₁, found, -⟩ := Prog.bind_eq_ok ran
    rcases lookupService_cases (name.take serviceNameMax) k with ⟨e, -, -, ok⟩ | ⟨-, e, missing⟩
    · have here := service_eq_some.mpr ok
      exact ⟨e.channelPtr, h.service_eq name ▸ here, here⟩
    · rw [missing] at found
      cases found
  missing cur tab name a₀ a₁ none_ := by
    rcases lookupService_cases (name.take serviceNameMax) k with ⟨e, -, -, ok⟩ | ⟨-, e, missing⟩
    · have here := service_eq_some.mpr ok
      rw [h.service_eq name, none_] at here
      cases here
    · exact ⟨e, k, Prog.bind_err missing⟩

theorem registered_eq_some {tab hv ptr : Nat} {name : List UInt8} {k₁ : Kernel}
    (ran : sysChannelRegister tab name hv k = .ok () k₁)
    (handle : withChannel tab hv channelRights k = .ok ptr k) :
    registered k (.register tab name hv) = some (name, ptr) := by simp [registered, ran, handle]

theorem enter_none (none_ : registered k op = none) : b.enter k op = b := by rw [Book.enter, none_]

/-- A step after which the registry has the same entries. -/
theorem Kept.same (h : Kept b k) (links : k'.Mutual) (registry : k'.registry = k.registry)
    (opened : ∀ e ∈ k.registry.occupants, k'.opened e.channelPtr) (none_ : registered k op = none) :
    Kept (b.next k k' op) k' where
  links := links
  entries name p := by
    rw [registry, ← h.entries, Book.next, enter_none none_, Option.filter_eq_some_iff]
    exact ⟨And.left, fun here => ⟨here, opened _ ((h.entries name p).mp here)⟩⟩
  names := registry ▸ h.names
  opened := registry ▸ opened

/-- A step that enters an endpoint. -/
theorem Kept.entered (h : Kept b k) {name : List UInt8} {ptr : Nat} {r : Slots ServiceEntry maxServices}
    (perm : r.occupants.Perm (⟨name, ptr⟩ :: k.registry.occupants)) (nonempty : name ≠ [])
    (short : name.length < serviceNameMax) (open_ : k.opened ptr)
    (unused : ∀ e ∈ k.registry.occupants, e.name ≠ name) (entered : registered k op = some (name, ptr)) :
    Kept (b.next k { k with registry := r } op) { k with registry := r } := by
  have entries : ∀ e : ServiceEntry, e ∈ r.occupants ↔ e = ⟨name, ptr⟩ ∨ e ∈ k.registry.occupants :=
    fun e => perm.mem_iff.trans List.mem_cons
  have all_open : ∀ e ∈ r.occupants, k.opened e.channelPtr := by
    intro e mem
    rcases (entries e).mp mem with rfl | old
    · exact open_
    · exact h.opened e old
  refine ⟨h.links, fun n p => ?_, fun e mem => ?_, all_open⟩
  · have book : b.enter k op n = some p ↔ (⟨n, p⟩ : ServiceEntry) ∈ r.occupants := by
      rw [entries, ServiceEntry.mk.injEq, Book.enter, entered]
      by_cases new : n = name
      · subst new
        have absent : (⟨n, p⟩ : ServiceEntry) ∉ k.registry.occupants := fun mem => unused _ mem rfl
        simp [absent, eq_comm]
      · simp [new, h.entries]
    rw [Book.next, Option.filter_eq_some_iff, book]
    exact ⟨And.left, fun mem => ⟨mem, all_open _ mem⟩⟩
  · rcases (entries e).mp mem with rfl | old
    · exact ⟨nonempty, short⟩
    · exact h.names e old

theorem opened_of_sheltered (h : Sheltered (Registered k) k') (before : k.opened p = true)
    (mem : ∃ e ∈ k.registry.occupants, e.channelPtr = p) : k'.opened p := by
  obtain ⟨o, link⟩ := opened_iff.mp before
  exact opened_iff.mpr ⟨o, h.opened p o ⟨mem, link⟩⟩

/-- A careful step keeps the registry as the book says. -/
theorem Kept.step (h : Kept b k) (careful : Careful k op) (steps : op.Steps k k') :
    Kept (b.next k k' op) k' := by
  have state : (op.exec k).state = k' := by
    rcases steps.2 with ran | ⟨e, ran⟩ <;> rw [ran] <;> rfl
  have spared := exec_sheltered h.sheltered steps.1 careful.spares fun _ _ => h.live
  rw [state] at spared
  have opened : ∀ e ∈ k.registry.occupants, k'.opened e.channelPtr := fun e mem =>
    opened_of_sheltered spared (h.opened e mem) ⟨e, mem, rfl⟩
  by_cases reg : ∃ tab name hv, op = .register tab name hv
  · obtain ⟨tab, name, hv, rfl⟩ := reg
    rw [exec] at state
    rcases sysChannelRegister_cases tab name hv k with ⟨ptr, r, accepts, ran, perm⟩ | ⟨e, failed⟩
    · obtain ⟨short, open_⟩ := careful.accepts tab name hv ptr rfl accepts
      have whole : name.take serviceNameMax = name := List.take_of_length_le short.le
      rw [ran] at state
      subst state
      have unused := accepts.unused
      rw [whole] at perm unused
      exact h.entered perm accepts.nonempty short open_ unused (registered_eq_some ran accepts.handle)
    · rw [failed] at state
      subst state
      exact h.same h.links rfl h.opened (by simp [registered, failed])
  · have other : ∀ tab name hv, op ≠ .register tab name hv := fun tab name hv eq =>
      reg ⟨tab, name, hv, eq⟩
    have registry := exec_registry (k := k) other
    rw [state] at registry
    have none_ : registered k op = none := by
      cases op <;> first | rfl | exact absurd rfl (other _ _ _)
    exact h.same spared.links registry opened none_

end PeerOp

open PeerOp in
/-- In every run of careful steps from an empty registry, every entry is an open endpoint, and a lookup
connects to the endpoint most recently accepted under the name, all of it, or fails where there is none
or it has been closed. -/
theorem registry_sound {k₀ k : Kernel} {b : Book} (start : k₀.Mutual)
    (empty : k₀.registry.occupants = []) (run : BookRun Careful k₀ b k) : RegistrySound b k := by
  refine Kept.sound ?_
  induction run with
  | nil =>
    refine ⟨start, fun name p => ?_, ?_, ?_⟩ <;> simp [empty]
  | step _ careful steps ih => exact ih.step careful steps

open PeerOp Kernel

/-- The small machine with the endpoint 100 behind the handle 5. -/
abbrev Kernel.demoServer : Kernel := demo (.channel 100)

/-- The endpoint is registered under a name of seventeen bytes, and the service reads from it. -/
def Kernel.demoListening : Kernel :=
  (PeerOp.exec (.channel (.read 1 100 [] []))
    (PeerOp.exec (.register 1 (List.replicate 17 97) 5) demoServer).state).state

/-- The registration of an open endpoint under a name of three bytes. -/
theorem registry_sound_demo :
    ∃ b k, BookRun Careful demoServer b k ∧ b [118, 102, 115] = some 100 ∧ RegistrySound b k := by
  have careful : Careful demoServer (.register 1 [118, 102, 115] 5) := by
    refine ⟨trivial, fun tab name hv ptr eq accepts => ?_⟩
    cases eq
    have here : withChannel 1 5 channelRights demoServer = .ok 100 demoServer := rfl
    cases here.symm.trans accepts.handle
    exact ⟨by decide, by decide⟩
  have steps : Steps (.register 1 [118, 102, 115] 5) demoServer _ := ⟨trivial, Or.inl rfl⟩
  have run := BookRun.nil.step careful steps
  exact ⟨_, _, run, rfl, registry_sound (demo_paired _).mutual rfl run⟩

/-- The service registers its endpoint and closes the handle: the entry points to a released block. A name
of seventeen bytes is registered, and a lookup under the first sixteen connects. -/
theorem registry_dangling : demoServer.Mutual ∧ demoServer.registry.occupants = [] ∧
    (∃ b k, BookRun (fun _ _ => True) demoServer b k ∧
      (∃ e ∈ k.registry.occupants, k.chans e.channelPtr = none) ∧ ¬ RegistrySound b k) ∧
    ∃ b k, BookRun (fun _ _ => True) demoServer b k ∧ b (List.replicate 16 97) = none ∧
      (∃ k', sysChannelLookup 2 2 (List.replicate 16 97) 300 400 k = .ok (.connected 1000) k') ∧
        ¬ RegistrySound b k := by
  refine ⟨(demo_paired _).mutual, rfl, ?_, ?_⟩
  · have entered : Steps (.register 1 [118, 102, 115] 5) demoServer _ := ⟨trivial, Or.inl rfl⟩
    have closed : Steps (.channel (.close 1 5))
        ((PeerOp.register 1 [118, 102, 115] 5).exec demoServer).state _ := ⟨trivial, Or.inl rfl⟩
    refine ⟨_, _, (BookRun.nil.step trivial entered).step trivial closed, ?_, fun sound => ?_⟩
    · exact ⟨⟨[118, 102, 115], 100⟩, by decide, rfl⟩
    · exact absurd (sound.opened ⟨[118, 102, 115], 100⟩ (by decide)) (by decide)
  · have entered : Steps (.register 1 (List.replicate 17 97) 5) demoServer _ :=
      ⟨trivial, Or.inl (Outcome.eq_ok_of_value? (by decide +kernel))⟩
    have listening : Steps (.channel (.read 1 100 [] []))
        (PeerOp.exec (.register 1 (List.replicate 17 97) 5) demoServer).state demoListening :=
      ⟨trivial, Or.inl (Outcome.eq_ok_of_value? (by decide +kernel))⟩
    have connected := Outcome.eq_ok_of_value? (show (sysChannelLookup 2 2 (List.replicate 16 97) 300 400
      demoListening).value? = some (.connected 1000) by decide +kernel)
    obtain ⟨b, run, none_⟩ : ∃ b, BookRun (fun _ _ => True) demoServer b demoListening ∧
        b (List.replicate 16 97) = none :=
      ⟨_, (BookRun.nil.step trivial entered).step trivial listening, by decide +kernel⟩
    refine ⟨b, demoListening, run, none_, ⟨_, connected⟩, fun sound => ?_⟩
    obtain ⟨p, here, -⟩ := sound.connects 2 2 (List.replicate 16 97) 300 400 _ _ connected
    rw [none_] at here
    cases here

end CapsuleOS
