import CapsuleOS.Ipc.Custody

/-!
# Which steps conserve objects

`Sound` is the condition under which a channel operation only moves objects around. It fails in the
three situations in which the code loses or doubles one: a handle to a VMO is sent, the table that
should receive an object is full or missing, or an endpoint is closed while a sender with stashed
handles waits on its pair. Each section takes one kind of operation and says where it leaves the
handles of its message.
-/
namespace CapsuleOS

open Lib

namespace Kernel

/-- Exactly one place holds the object. -/
def HasOnce (k : Kernel) (o : KernelObject) : Prop := HeldOnce k.held fun x => x.1 = o

def HasNowhere (k : Kernel) (o : KernelObject) : Prop :=
  ∀ pl, ¬ HoldsAt k.held (fun x => x.1 = o) pl

def tableOf (k : Kernel) (tid : Nat) : Option Nat := (k.thread? tid).bind Thread.handleTable

/-- The object has arrived in the table `dst`; if it was in one place before, it is not in `src`. -/
def Arrived (k k' : Kernel) (src dst : Nat) (x : KernelObject × Nat) : Prop :=
  k'.InTable dst x ∧
    (src ≠ dst → k.HasOnce x.1 → ∀ i, ¬ HoldsAt k'.held (fun y => y.1 = x.1) (.table src i))

theorem arrived_of_moved {k k' : Kernel} {S : Set Place} {src dst : Nat} {x : KernelObject × Nat}
    (moved : Moved S k.held k'.held) (arrived : k'.InTable dst x) : Arrived k k' src dst x := by
  refine ⟨arrived, fun ne once i there => ?_⟩
  obtain ⟨j, hj⟩ := arrived
  have same := (moved.heldOnce once).unique there ⟨x, hj, rfl⟩
  cases same
  exact ne rfl

end Kernel

namespace ChannelOp

open Kernel

variable {k k' : Kernel}

/-- The places a read by `cur` on `p` may move things between. -/
def readParties (k : Kernel) (cur p : Nat) : Set Place
  | .table tab _ => k.tableOf cur = some tab
  | .stash tid _ => ∃ w k₀, k.served .send p = some (w, k₀) ∧ w.id = tid

/-- The tables and transfer slots of the two parties of an operation. -/
def parties (k : Kernel) : ChannelOp → Set Place
  | .write cur p _ _ => fun
    | .table tab _ => k.tableOf cur = some tab ∨
        ∃ w k₀, k.served .recv p = some (w, k₀) ∧ w.handleTable = some tab
    | .stash tid _ => tid = cur
  | .read cur p _ _ => readParties k cur p
  | .readWithTimeout cur p _ _ _ => readParties k cur p
  | _ => ∅

/-- The reader has room for what the sender it finds has stashed. -/
def ReadFits (k : Kernel) (cur p : Nat) : Prop :=
  ∀ w k₀, k.served .send p = some (w, k₀) → k.loaded w.id [0, 1] ≠ [] → ∃ tab,
    k.tableOf cur = some tab ∧
      (k.tables tab).occupants.length + (k.loaded w.id [0, 1]).length ≤ maxHandles

/-- No entry with one of these values denotes a VMO. -/
def Plain (t : HandleTable) (hs : List Nat) : Prop :=
  ∀ s ∈ t.occupants, s.value ∈ hs → s.object.isVmo = false

/-- The receiver of a direct transfer has room for the entries `msg`. -/
def WriteFits (k : Kernel) (tab : Nat) (w : Thread) (msg : List HandleSlot) : Prop :=
  msg ≠ [] → ∃ rtab, w.handleTable = some rtab ∧
    (rtab = tab ∨ (k.tables rtab).occupants.length + msg.length ≤ maxHandles)

/-- The step neither duplicates nor drops an object. -/
def Sound (k : Kernel) : ChannelOp → Prop
  | .write cur p _ hs => ∀ tab, k.tableOf cur = some tab →
      Plain (k.tables tab) (hs.take 2) ∧ ∀ w k₀, k.served .recv p = some (w, k₀) →
        WriteFits k tab w ((k.tables tab).taken (hs.take 2))
  | .read cur p _ _ => ReadFits k cur p
  | .readWithTimeout cur p _ _ _ => ReadFits k cur p
  | .close tab hv => ∀ s p c, (k.tables tab).find? (·.value == hv) = some s →
      s.object = .channel p → k.chans p = some c → ∀ q, q = p ∨ c.peer = some q →
        ∀ tid, k.InLine .send q tid → k.loaded tid [0, 1] = []
  | _ => True

/-- The object whose handle the operation closes. -/
def closes (k : Kernel) : ChannelOp → Option KernelObject
  | .close tab hv => ((k.tables tab).find? (·.value == hv)).map HandleSlot.object
  | _ => none

/-- What was stashed for the message that a read consumes has arrived. -/
def ReadDelivers (k k' : Kernel) (cur p : Nat) : Prop :=
  ∀ w k₀ tab, k.served .send p = some (w, k₀) → k.tableOf cur = some tab →
    ∀ i x, k.stashed w.id i = some x →
      k'.InTable tab x ∧ ∀ stab, w.handleTable = some stab → Arrived k k' stab tab x

/-- The handles of a message are with the receiver after the step that delivers it; until then they
are with the blocked sender, or back in its table if the write has failed. -/
def Delivers (k k' : Kernel) : ChannelOp → Prop
  | .write cur p _ hs => ∀ tab, k.tableOf cur = some tab →
      ∀ s ∈ (k.tables tab).taken (hs.take 2),
        (∀ w k₀ rtab, k.served .recv p = some (w, k₀) → w.handleTable = some rtab →
          Arrived k k' tab rtab s.content) ∧
        (k.served .recv p = none →
          (∃ i, k'.stashed cur i = some s.content) ∨ k'.InTable tab s.content)
  | .read cur p _ _ => ReadDelivers k k' cur p
  | .readWithTimeout cur p _ _ _ => ReadDelivers k k' cur p
  | _ => True

/-! ## The invariant -/

/-- Whoever has something stashed is blocked in a write. -/
structure Kept (k : Kernel) : Prop where
  standing : k.Standing
  parked : ∀ tid i x, k.stashed tid i = some x → ∃ p, k.InLine .send p tid
  sizes : ∀ tid n, (k.thread? tid).map (·.ipcTransferSlots.length) = some n → n = 2

/-- Senders stay in their lines. -/
def SendersStay (k k' : Kernel) : Prop := ∀ p tid, k.InLine .send p tid → k'.InLine .send p tid

theorem sendersStay_of_chans (h : k'.chans = k.chans) : SendersStay k k' :=
  fun p tid line => by simpa [InLine, h] using line

theorem sendersStay_setChan {q : Nat} {d d' : Channel} (hd : k.chans q = some d)
    (same : d'.sendWaiters = d.sendWaiters) : SendersStay k (k.setChan q (some d')) := by
  rintro p tid ⟨c, hc, mem⟩
  by_cases eq : p = q
  · subst eq
    rw [hd] at hc
    cases hc
    refine ⟨d', setChan_chans_same k p _, ?_⟩
    rw [Side.queue, same]
    exact mem
  · exact ⟨c, by rw [setChan_chans_ne k eq, hc], mem⟩

theorem SendersStay.trans {k'' : Kernel} (h : SendersStay k k') (h' : SendersStay k' k'') :
    SendersStay k k'' := fun p tid line => h' p tid (h p tid line)

theorem Kept.of_moved {S : Set Place} (g : Kept k) (standing : k'.Standing)
    (moved : Moved S k.held k'.held) (tables : ∀ tid i, Place.stash tid i ∉ S)
    (sizes : ∀ tid, (k'.thread? tid).map (·.ipcTransferSlots.length) =
      (k.thread? tid).map (·.ipcTransferSlots.length))
    (stay : SendersStay k k') : Kept k' where
  standing := standing
  parked tid i x stash := by
    have before : k.stashed tid i = some x := (moved.outside (tables tid i)).symm.trans stash
    obtain ⟨p, line⟩ := g.parked tid i x before
    exact ⟨p, stay p tid line⟩
  sizes tid n eq := g.sizes tid n ((sizes tid).symm.trans eq)

/-- Steps that move nothing. -/
theorem Kept.quiet (g : Kept k) (standing : k'.Standing) (still : Kernel.Untouched k k')
    (stay : SendersStay k k') : Kept k' :=
  g.of_moved (S := ∅) standing (still.held ▸ .refl _ _) (fun _ _ => Set.notMem_empty _)
    still.sizes stay

/-- A thread in no call has nothing stashed. -/
theorem Kept.unloaded (g : Kept k) {cur : Nat} {t : Thread} (ht : k.thread? cur = some t)
    (idle : t.call = none) (i : Nat) : k.stashed cur i = none := by
  cases stash : k.stashed cur i with
  | none => rfl
  | some x =>
    obtain ⟨p, line⟩ := g.parked cur i x stash
    exact absurd line (g.standing.not_inLine ht idle .send p)

theorem Kept.size (g : Kept k) {cur : Nat} {t : Thread} (ht : k.thread? cur = some t) :
    (k.thread? cur).map (·.ipcTransferSlots.length) = some 2 := by
  have len := g.sizes cur t.ipcTransferSlots.length (by rw [ht, Option.map_some])
  rw [ht, Option.map_some, len]

/-! ## A write that finds a receiver -/

section Direct

variable {cur p : Nat} {data : List UInt8} {hs : List Nat} {t w : Thread}

/-- The tables of the two threads. -/
def passPlaces (t w : Thread) : Set Place
  | .table tab _ => t.handleTable = some tab ∨ w.handleTable = some tab
  | .stash _ _ => False

variable (hs w) in
theorem passHandles_moves (ht : k.thread? cur = some t)
    (plain : ∀ tab, t.handleTable = some tab → Plain (k.tables tab) (hs.take 2))
    (fits : ∀ tab, t.handleTable = some tab → WriteFits k tab w ((k.tables tab).taken (hs.take 2))) :
    ∃ k', passHandles cur w hs k = .ok () k' ∧ Fixed k k' ∧
      Moved (passPlaces t w) k.held k'.held ∧
      ∀ tab rtab, t.handleTable = some tab → w.handleTable = some rtab →
        ∀ s ∈ (k.tables tab).taken (hs.take 2), k'.InTable rtab s.content := by
  have here : currentThread cur k = .ok t k := by simp [currentThread, ht]
  rw [passHandles, Prog.bind_ok here]
  cases own : t.handleTable with
  | none => exact ⟨k, rfl, Std.Refl.refl k, .refl _ _, fun _ _ h => by cases h⟩
  | some tab =>
    cases theirs : w.handleTable with
    | none => exact ⟨k, rfl, Std.Refl.refl k, .refl _ _, fun _ _ _ h => by cases h⟩
    | some rtab =>
      have room : rtab = tab ∨ (k.tables rtab).occupants.length +
          ((k.tables tab).taken (hs.take 2)).length ≤ maxHandles := by
        by_cases empty : (k.tables tab).taken (hs.take 2) = []
        · rw [empty]
          exact Or.inr (k.tables rtab).occupants_length_le
        · obtain ⟨rtab', eq, room⟩ := fits tab own empty
          rw [theirs] at eq
          cases eq
          exact room
      obtain ⟨k', ran, inj⟩ := injectHandles_moves (hs.take 2) 0 (plain tab own) room
      refine ⟨k', ran, inj.fixed, inj.moved.mono ?_, ?_⟩
      · rintro pl ⟨i, rfl | rfl⟩
        · exact Or.inl own
        · exact Or.inr theirs
      · rintro tab' rtab' h h' s mem
        cases h
        cases h'
        exact inj.all_arrived s mem

theorem sendTo_moves (k₀ : Kernel) (ht : k₀.thread? cur = some t)
    (plain : ∀ tab, t.handleTable = some tab → Plain (k₀.tables tab) (hs.take 2))
    (fits : ∀ tab, t.handleTable = some tab →
      WriteFits k₀ tab w ((k₀.tables tab).taken (hs.take 2)))
    (ret : Returns (sendTo cur w data hs k₀) k') :
    Fixed k₀ k' ∧ Moved (passPlaces t w) k₀.held k'.held ∧
      ∀ tab rtab, t.handleTable = some tab → w.handleTable = some rtab →
        ∀ s ∈ (k₀.tables tab).taken (hs.take 2), k'.InTable rtab s.content := by
  set n := min data.length w.ipcBuf.length with hn
  set k₁ := k₀.modifyThread w.id (·.fill (data.take n)) with hk₁
  have filled : Kernel.Untouched k₀ k₁ := .of_modify k₀ w.id (by intro; rfl) (by intro; rfl)
  obtain ⟨t₁, ht₁, table⟩ : ∃ t₁, k₁.thread? cur = some t₁ ∧ t₁.handleTable = t.handleTable := by
    rw [hk₁, thread?_modifyThread _ (by intro; rfl), ht]
    split_ifs
    · exact ⟨_, rfl, rfl⟩
    · exact ⟨_, rfl, rfl⟩
  obtain ⟨k₂, ran, fixed, moved, arrived⟩ := passHandles_moves hs w ht₁
    (fun tab h => plain tab (table ▸ h)) (fun tab h => fits tab (table ▸ h))
  have woken := untouched_answerWaiter w.id n k₂
  have last : k' = answerWaiter w.id n k₂ := by
    have whole : sendTo cur w data hs k₀ = .ok (.wrote n) (answerWaiter w.id n k₂) := by
      rw [sendTo, Prog.bind_ok (Prog.modify_apply _ k₀), Prog.bind_ok ran]
      rfl
    rw [whole] at ret
    exact ret.of_ok
  have same : passPlaces t₁ w = passPlaces t w := by
    funext pl
    cases pl <;> simp [passPlaces, table]
  rw [last]
  refine ⟨?_, ?_, fun tab rtab h h' s mem => ?_⟩
  · have first := Fixed.of_untouched (show k₁.chans = k₀.chans from rfl) filled
    have end_ := Fixed.of_untouched (answerWaiter_chans w.id n k₂) woken
    exact IsTrans.trans _ _ _ first (IsTrans.trans _ _ _ fixed end_)
  · rw [woken.held, ← filled.held, ← same]
    exact moved
  · obtain ⟨i, hi⟩ := arrived tab rtab (table.trans h) h' s mem
    exact ⟨i, by rw [woken.held, hi]⟩

end Direct

/-! ## A write that waits -/

section Waiting

variable {cur self : Nat} {data : List UInt8} {hs : List Nat} {t : Thread}

/-- The table and the transfer slots of the writing thread. -/
def waitPlaces (t : Thread) (cur : Nat) : Set Place
  | .table tab _ => t.handleTable = some tab
  | .stash tid _ => tid = cur

theorem stashPlaces_subset {tab : Nat} (h : t.handleTable = some tab) :
    stashPlaces tab cur ⊆ waitPlaces t cur := by
  rintro pl ⟨i, rfl | rfl⟩
  · exact h
  · rfl

theorem clearStash_empty (free : ∀ i, k.stashed cur i = none) (cells : List Nat) :
    clearStash cur cells k = .ok () k := by
  induction cells with
  | nil => rfl
  | cons i cells ih =>
    rw [clearStash, Prog.bind_ok (Prog.get_apply k)]
    simp only [free i]
    exact ih

theorem stashMessage_moves (ht : k.thread? cur = some t) (free : ∀ i, k.stashed cur i = none)
    (size : (k.thread? cur).map (·.ipcTransferSlots.length) = some 2)
    (plain : ∀ tab, t.handleTable = some tab → Plain (k.tables tab) (hs.take 2)) :
    ∃ k', stashMessage cur hs k = .ok t.handleTable k' ∧ (t.handleTable = none → k' = k) ∧
      ∀ tab, t.handleTable = some tab → Stashed tab cur 0 ((k.tables tab).taken (hs.take 2)) k k' := by
  have here : currentThread cur k = .ok t k := by simp [currentThread, ht]
  rw [stashMessage, Prog.bind_ok (clearStash_empty free [0, 1]), Prog.bind_ok here]
  cases own : t.handleTable with
  | none => exact ⟨k, rfl, fun _ => rfl, fun tab h => by cases h⟩
  | some tab =>
    obtain ⟨k', ran, st⟩ := stashHandles_moves (hs.take 2) 0 (plain tab own) size
      (by simp [List.length_take]) (fun j => free (0 + j))
    refine ⟨k', ?_, (fun h => by cases h), fun tab' h => ?_⟩
    · simp only [Prog.bind_ok ran]
      rfl
    · cases h
      exact st

theorem Stashed.loaded_le {tab : Nat} {msg : List HandleSlot} (st : Stashed tab cur 0 msg k k')
    (short : msg.length ≤ 2) : (k'.loaded cur [0, 1]).length ≤ msg.length := by
  have first := st.slots 0
  have second := st.slots 1
  match msg, short with
  | [], _ => simp_all [loaded]
  | [a], _ => simp_all [loaded]
  | [a, b], _ => simp_all [loaded]

/-- What a waiting write has done when it stops. -/
structure Waits (t : Thread) (cur : Nat) (hs : List Nat) (k k' : Kernel) : Prop where
  moved : Moved (waitPlaces t cur) k.held k'.held
  somewhere : ∀ tab, t.handleTable = some tab → ∀ s ∈ (k.tables tab).taken (hs.take 2),
    (∃ i, k'.stashed cur i = some s.content) ∨ k'.InTable tab s.content
  sizes : ∀ tid, (k'.thread? tid).map (·.ipcTransferSlots.length) =
    (k.thread? tid).map (·.ipcTransferSlots.length)
  stay : SendersStay k k'
  own : (∃ p, k'.InLine .send p cur) ∨ ∀ i, k'.stashed cur i = none

/-- The state after the handles of a waiting write have been stashed. -/
structure Packed (t : Thread) (cur : Nat) (hs : List Nat) (k k' : Kernel) : Prop where
  tableless : t.handleTable = none → k' = k
  stash : ∀ tab, t.handleTable = some tab →
    Stashed tab cur 0 ((k.tables tab).taken (hs.take 2)) k k'

theorem Packed.fixed (h : Packed t cur hs k k') : Fixed k k' := by
  cases own : t.handleTable with
  | none =>
    rw [h.tableless own]
    exact Std.Refl.refl k
  | some tab => exact (h.stash tab own).fixed

theorem Packed.moved (h : Packed t cur hs k k') : Moved (waitPlaces t cur) k.held k'.held := by
  cases own : t.handleTable with
  | none =>
    rw [h.tableless own]
    exact .refl _ _
  | some tab => exact (h.stash tab own).moved.mono (stashPlaces_subset own)

theorem Packed.stashed (h : Packed t cur hs k k') {tab : Nat} (own : t.handleTable = some tab)
    {s : HandleSlot} (mem : s ∈ (k.tables tab).taken (hs.take 2)) :
    ∃ i, i ∈ [0, 1] ∧ k'.stashed cur i = some s.content := by
  obtain ⟨i, hi⟩ := List.mem_iff_getElem?.mp mem
  have lt := (List.getElem?_eq_some_iff.mp hi).1
  have short := taken_length_le (k.tables tab) (hs.take 2)
  have two : (hs.take 2).length ≤ 2 := by simp [List.length_take]
  refine ⟨i, ?_, ?_⟩
  · simp only [List.mem_cons, List.not_mem_nil, or_false]
    omega
  · have at_i := (h.stash tab own).slots i
    rw [hi, Nat.zero_add] at at_i
    exact at_i

theorem restoreMessage_moves {k₁ : Kernel} (h : Packed t cur hs k k₁)
    (free : ∀ i, k.stashed cur i = none) :
    ∃ k', restoreMessage cur t.handleTable k₁ = .ok () k' ∧ Fixed k₁ k' ∧
      Moved (waitPlaces t cur) k₁.held k'.held ∧ (∀ i, k'.stashed cur i = none) ∧
      ∀ tab, t.handleTable = some tab → ∀ s ∈ (k.tables tab).taken (hs.take 2),
        k'.InTable tab s.content := by
  cases own : t.handleTable with
  | none =>
    obtain rfl := h.tableless own
    exact ⟨k₁, rfl, Std.Refl.refl k₁, .refl _ _, free, fun _ bad => by cases bad⟩
  | some tab =>
    have st := h.stash tab own
    have short : ((k.tables tab).taken (hs.take 2)).length ≤ 2 :=
      (taken_length_le _ _).trans (by simp [List.length_take])
    have room : (k₁.tables tab).occupants.length + (k₁.loaded cur [0, 1]).length ≤ maxHandles := by
      have := Stashed.loaded_le st short
      have := st.length
      have := (k.tables tab).occupants_length_le
      omega
    obtain ⟨k', ran, un⟩ := restoreStash_moves (by decide) room
    refine ⟨k', ran, un.fixed, un.moved.mono (stashPlaces_subset own), fun i => ?_, ?_⟩
    · refine un.emptied i ?_
      by_cases lt : i < 2
      · exact Or.inl (by simp only [List.mem_cons, List.not_mem_nil, or_false]; omega)
      · have at_i := st.slots i
        rw [List.getElem?_eq_none (by omega), Nat.zero_add] at at_i
        exact Or.inr at_i
    · intro tab' eq s mem
      cases eq
      obtain ⟨i, cell, stash⟩ := h.stashed own mem
      exact un.arrived i cell _ stash

theorem abandonWrite_waits {k₁ : Kernel} (h : Packed t cur hs k k₁)
    (free : ∀ i, k.stashed cur i = none)
    (ret : Returns (abandonWrite cur t.handleTable k₁) k') : Waits t cur hs k k' := by
  obtain ⟨k₂, ran, fixed, moved, empty, back⟩ := restoreMessage_moves h free
  have stopped : Kernel.Untouched k₂ (k₂.modifyThread cur (·.setState .running)) :=
    .of_modify k₂ cur (by intro; rfl) (by intro; rfl)
  have last : k' = k₂.modifyThread cur (·.setState .running) := by
    have whole : abandonWrite cur t.handleTable k₁ =
        .err .noMemory (k₂.modifyThread cur (·.setState .running)) := by
      rw [abandonWrite, Prog.bind_ok ran]
      rfl
    rw [whole] at ret
    exact ret.of_err
  rw [last]
  have all : Fixed k (k₂.modifyThread cur (·.setState .running)) :=
    IsTrans.trans _ _ _ h.fixed (IsTrans.trans _ _ _ fixed (.of_untouched rfl stopped))
  refine ⟨?_, fun tab own s mem => Or.inr ?_, all.sizes, sendersStay_of_chans all.chans,
    Or.inr fun i => ?_⟩
  · rw [stopped.held]
    exact h.moved.trans moved
  · obtain ⟨i, hi⟩ := back tab own s mem
    exact ⟨i, by rw [stopped.held, hi]⟩
  · exact (stashed_of_slots (stopped.slots cur) i).trans (empty i)

theorem enqueue_waits {k₁ : Kernel} {c c' : Channel} (h : Packed t cur hs k k₁)
    (hc : k₁.chans self = some c) (push : c.pushSender cur = some c') :
    Waits t cur hs k (enqueue cur self c' (.write self) k₁) := by
  obtain ⟨perm, _⟩ := Side.push_perm (show Side.send.push c cur = some c' from push)
  have joined : Kernel.Untouched k₁ (enqueue cur self c' (.write self) k₁) :=
    untouched_enqueue cur self c' _ k₁
  have self_ : (enqueue cur self c' (.write self) k₁).chans self = some c' :=
    setChan_chans_same k₁ self _
  refine ⟨?_, fun tab own s mem => Or.inl ?_, fun tid => (joined.sizes tid).trans (h.fixed.sizes tid),
    fun p tid line => ?_, Or.inl ⟨self, c', self_, perm.symm.subset List.mem_cons_self⟩⟩
  · rw [joined.held]
    exact h.moved
  · obtain ⟨i, _, hi⟩ := h.stashed own mem
    exact ⟨i, (stashed_of_slots (joined.slots cur) i).trans hi⟩
  · obtain ⟨d, hd, mem⟩ := line
    by_cases eq : p = self
    · subst eq
      rw [h.fixed.chans, hd] at hc
      cases hc
      exact ⟨c', self_, perm.symm.subset (List.mem_cons_of_mem _ mem)⟩
    · refine ⟨d, ?_, mem⟩
      rw [enqueue, modifyThread_chans, setChan_chans_ne _ eq, h.fixed.chans, hd]

theorem waitSender_waits (g : Kept k) (ht : k.thread? cur = some t) (idle : t.call = none)
    (plain : ∀ tab, t.handleTable = some tab → Plain (k.tables tab) (hs.take 2))
    (ret : Returns (waitSender cur self data hs k) k') : Waits t cur hs k k' := by
  set k₀ := k.modifyThread cur (·.block data) with hk₀
  have blocked : Kernel.Untouched k k₀ := .of_modify k cur (by intro; rfl) (by intro; rfl)
  have free : ∀ i, k₀.stashed cur i = none := fun i =>
    (stashed_of_slots (blocked.slots cur) i).trans (g.unloaded ht idle i)
  have ht₀ : k₀.thread? cur = some (t.block data) := modifyThread_same k (by intro; rfl) ht
  obtain ⟨k₁, ran, none_, some_⟩ := stashMessage_moves (t := t.block data) ht₀ free
    ((blocked.sizes cur).trans (g.size ht)) plain
  have packed : Packed t cur hs k₀ k₁ := ⟨none_, some_⟩
  suffices waits : Waits t cur hs k₀ k' from
    ⟨blocked.held ▸ waits.moved, waits.somewhere,
      fun tid => (waits.sizes tid).trans (blocked.sizes tid), waits.stay, waits.own⟩
  rw [waitSender, Prog.bind_ok (Prog.modify_apply _ k), Prog.bind_ok ran] at ret
  cases hc : k₁.chans self with
  | none =>
    rw [Prog.bind_fault (show deref self k₁ = .fault k₁ by simp [deref, hc])] at ret
    exact absurd ret (not_returns_fault k₁)
  | some c =>
    rw [Prog.bind_ok (show deref self k₁ = .ok c k₁ by simp [deref, hc])] at ret
    cases push : c.pushSender cur with
    | none =>
      simp only [push] at ret
      exact abandonWrite_waits packed free ret
    | some c' =>
      simp only [push] at ret
      have last : k' = enqueue cur self c' (.write self) k₁ := ret.of_ok
      rw [last]
      exact enqueue_waits packed hc push

end Waiting

/-! ## Writes -/

section Steps

variable {cur p : Nat} {data : List UInt8} {hs : List Nat} {t : Thread}

theorem tableOf_eq (ht : k.thread? cur = some t) : k.tableOf cur = t.handleTable := by
  simp [tableOf, ht]

theorem write_conserves (g : Kept k) (ht : k.thread? cur = some t) (idle : t.call = none)
    (sound : Sound k (.write cur p data hs)) (standing' : k'.Standing)
    (ret : Returns (channelWrite cur p data hs k) k') :
    Kept k' ∧ Moved (parties k (.write cur p data hs)) k.held k'.held ∧
      Delivers k k' (.write cur p data hs) := by
  have own := tableOf_eq ht
  have plain : ∀ tab, t.handleTable = some tab → Plain (k.tables tab) (hs.take 2) := fun tab h =>
    (sound tab (own.trans h)).1
  have meets : Meets k .recv cur p (fun r => sendTo cur r data hs) (waitSender cur p data hs)
      (channelWrite cur p data hs k) := meet_result g.standing ht
  generalize channelWrite cur p data hs k = out at meets ret
  cases meets with
  | failed e nobody =>
    obtain rfl := ret.of_err
    refine ⟨g, .refl _ _, fun tab htab s mem => ⟨fun w k₀ rtab found => ?_, fun _ => Or.inr ?_⟩⟩
    · rw [nobody] at found
      cases found
    · exact inTable_of_mem (taken_subset _ _ s mem)
  | faulted => exact absurd ret (not_returns_fault k)
  | @serve _ d d' q w call _ _ _ hd pop _ _ _ _ found =>
    have still := untouched_setChan k q (some d')
    obtain ⟨fixed, moved, arrived⟩ := sendTo_moves (k.setChan q (some d')) ht plain
      (fun tab h => (sound tab (own.trans h)).2 w _ found) ret
    rw [still.held] at moved
    have stay : SendersStay k k' :=
      (sendersStay_setChan hd (Side.pop_perm pop).2).trans (sendersStay_of_chans fixed.chans)
    refine ⟨g.of_moved standing' moved (fun _ _ => id) fixed.sizes stay, moved.mono ?_, ?_⟩
    · rintro (⟨tab, i⟩ | ⟨tid, i⟩) mem
      · exact mem.imp (own.trans ·) fun h => ⟨w, _, found, h⟩
      · exact mem.elim
    · refine fun tab htab s mem => ⟨fun w' k₀ rtab found' hr => ?_, fun nobody => ?_⟩
      · rw [found] at found'
        cases found'
        exact arrived_of_moved moved (arrived tab rtab (own.symm.trans htab) hr s mem)
      · rw [found] at nobody
        cases nobody
  | wait _ _ _ _ _ nobody =>
    have waits := waitSender_waits g ht idle plain ret
    refine ⟨⟨standing', fun tid i x stash => ?_, fun tid n eq => ?_⟩, waits.moved.mono ?_, ?_⟩
    · by_cases eq : tid = cur
      · subst eq
        rcases waits.own with line | empty
        · exact line
        · rw [empty i] at stash
          cases stash
      · have out : Place.stash tid i ∉ waitPlaces t cur := eq
        obtain ⟨p', line⟩ := g.parked tid i x ((waits.moved.outside out).symm.trans stash)
        exact ⟨p', waits.stay p' tid line⟩
    · exact g.sizes tid n ((waits.sizes tid).symm.trans eq)
    · rintro (⟨tab, i⟩ | ⟨tid, i⟩) mem
      · exact Or.inl (own.trans mem)
      · exact mem
    · refine fun tab htab s mem => ⟨fun w k₀ rtab found => ?_, fun _ => ?_⟩
      · rw [nobody] at found
        cases found
      · exact waits.somewhere tab (own.symm.trans htab) s mem

/-! ## Reads -/

/-- Nothing is moved and no sender leaves its line. -/
def Quiet (k k' : Kernel) : Prop := Kernel.Untouched k k' ∧ SendersStay k k'

theorem Quiet.trans {k'' : Kernel} (h : Quiet k k') (h' : Quiet k' k'') : Quiet k k'' :=
  ⟨IsTrans.trans _ _ _ h.1 h'.1, h.2.trans h'.2⟩

theorem quiet_modify (k : Kernel) (tid : Nat) {f : Thread → Thread} (hf : ∀ t, (f t).id = t.id)
    (slots : ∀ t, (f t).ipcTransferSlots = t.ipcTransferSlots) : Quiet k (k.modifyThread tid f) :=
  ⟨.of_modify k tid hf slots, sendersStay_of_chans rfl⟩

theorem quiet_finishRead {n : Nat} {buf : List UInt8} (ret : Returns (finishRead cur n buf hs k) k') :
    Quiet k k' := by
  cases ht : k.thread? cur with
  | none =>
    have failed : finishRead cur n buf hs k = .err .threadNotFound k := by
      simp [finishRead, Prog.bind_apply, currentThread, ht]
    rw [failed] at ret
    obtain rfl := ret.of_err
    exact ⟨Std.Refl.refl k', sendersStay_of_chans rfl⟩
  | some t =>
    rw [finishRead_ok ht] at ret
    obtain rfl := ret.of_ok
    exact quiet_modify k cur (by intro; rfl) (by intro; rfl)

theorem quiet_waitReceiver {call : Call} (ret : Returns (waitReceiver cur p call k) k') :
    Quiet k k' := by
  cases hc : k.chans p with
  | none =>
    rw [waitReceiver, Prog.bind_fault (show deref p k = .fault k by simp [deref, hc])] at ret
    exact absurd ret (not_returns_fault k)
  | some c =>
    rw [waitReceiver, Prog.bind_ok (show deref p k = .ok c k by simp [deref, hc])] at ret
    cases push : c.pushReceiver cur with
    | none =>
      simp only [push] at ret
      have last : k' = k.modifyThread cur (·.setState .running) := ret.of_err
      rw [last]
      exact quiet_modify k cur (by intro; rfl) (by intro; rfl)
    | some c' =>
      simp only [push] at ret
      have last : k' = enqueue cur p c' call k := ret.of_ok
      rw [last]
      have same := (Side.push_perm (show Side.recv.push c cur = some c' from push)).2
      exact ⟨untouched_enqueue cur p c' call k,
        (sendersStay_setChan hc same).trans (sendersStay_of_chans rfl)⟩

theorem Kept.of_quiet (g : Kept k) (standing' : k'.Standing) (h : Quiet k k') : Kept k' :=
  g.quiet standing' h.1 h.2

/-- The table of the reader and the transfer slots of the sender. -/
def collectPlaces (t : Thread) (src : Nat) : Set Place
  | .table tab _ => t.handleTable = some tab
  | .stash tid _ => tid = src

theorem loaded_eq_nil {src : Nat} : k.loaded src [0, 1] = [] ↔
    ∀ i ∈ [0, 1], k.stashed src i = none := by
  simp [loaded, List.filterMap_eq_nil_iff]

theorem collectHandles_moves {src : Nat} (ht : k.thread? cur = some t)
    (fits : k.loaded src [0, 1] ≠ [] → ∃ tab, t.handleTable = some tab ∧
      (k.tables tab).occupants.length + (k.loaded src [0, 1]).length ≤ maxHandles) :
    ∃ k', collectHandles cur src k = .ok () k' ∧ Fixed k k' ∧
      Moved (collectPlaces t src) k.held k'.held ∧
      (∀ i, i ∈ [0, 1] ∨ k.stashed src i = none → k'.stashed src i = none) ∧
      ∀ tab, t.handleTable = some tab → ∀ i ∈ [0, 1], ∀ x, k.stashed src i = some x →
        k'.InTable tab x := by
  have here : currentThread cur k = .ok t k := by simp [currentThread, ht]
  rw [collectHandles, Prog.bind_ok here]
  cases own : t.handleTable with
  | none =>
    have empty : k.loaded src [0, 1] = [] := by
      by_contra h
      obtain ⟨tab, bad, _⟩ := fits h
      rw [own] at bad
      cases bad
    exact ⟨k, rfl, Std.Refl.refl k, .refl _ _, fun i h => h.elim (loaded_eq_nil.mp empty i) id,
      fun _ bad => by cases bad⟩
  | some tab =>
    have room : (k.tables tab).occupants.length + (k.loaded src [0, 1]).length ≤ maxHandles := by
      by_cases empty : k.loaded src [0, 1] = []
      · rw [empty]
        exact (k.tables tab).occupants_length_le
      · obtain ⟨tab', eq, room⟩ := fits empty
        rw [own] at eq
        cases eq
        exact room
    obtain ⟨k', ran, un⟩ := receiveStash_moves 0 (by decide) room
    refine ⟨k', ran, un.fixed, un.moved.mono ?_, un.emptied, fun tab' eq => ?_⟩
    · rintro pl ⟨i, rfl | rfl⟩
      · exact own
      · rfl
    · cases eq
      exact un.arrived

theorem receiveFrom_moves (k₀ : Kernel) {w : Thread} (ht : k₀.thread? cur = some t)
    (fits : k₀.loaded w.id [0, 1] ≠ [] → ∃ tab, t.handleTable = some tab ∧
      (k₀.tables tab).occupants.length + (k₀.loaded w.id [0, 1]).length ≤ maxHandles)
    (ret : Returns (receiveFrom cur w data hs k₀) k') :
    (∀ tid, (k'.thread? tid).map (·.ipcTransferSlots.length) =
      (k₀.thread? tid).map (·.ipcTransferSlots.length)) ∧ SendersStay k₀ k' ∧
      Moved (collectPlaces t w.id) k₀.held k'.held ∧
      (∀ i, i ∈ [0, 1] ∨ k₀.stashed w.id i = none → k'.stashed w.id i = none) ∧
      ∀ tab, t.handleTable = some tab → ∀ i ∈ [0, 1], ∀ x, k₀.stashed w.id i = some x →
        k'.InTable tab x := by
  obtain ⟨k₁, ran, fixed, moved, empty, arrived⟩ := collectHandles_moves ht fits
  rw [receiveFrom, Prog.bind_ok ran, Prog.bind_ok (Prog.modify_apply _ k₁)] at ret
  have woken := untouched_answerWaiter w.id (min w.ipcBuf.length data.length) k₁
  obtain ⟨still, stay⟩ := quiet_finishRead ret
  have all : Kernel.Untouched k₁ k' := IsTrans.trans _ _ _ woken still
  refine ⟨fun tid => (all.sizes tid).trans (fixed.sizes tid), ?_, ?_, fun i h => ?_,
    fun tab own i cell x stash => ?_⟩
  · exact ((sendersStay_of_chans fixed.chans).trans
      (sendersStay_of_chans (answerWaiter_chans _ _ k₁))).trans stay
  · rw [all.held]
    exact moved
  · exact (stashed_of_slots (all.slots w.id) i).trans (empty i h)
  · obtain ⟨j, hj⟩ := arrived tab own i cell x stash
    exact ⟨j, by rw [all.held, hj]⟩

/-- A thread has two transfer slots. -/
theorem Kept.cells (g : Kept k) {tid i : Nat} {x : KernelObject × Nat}
    (stash : k.stashed tid i = some x) : i ∈ [0, 1] := by
  obtain ⟨u, hu, cell⟩ := Option.bind_eq_some_iff.mp stash
  have two := g.sizes tid u.ipcTransferSlots.length (by rw [hu, Option.map_some])
  have lt : i < u.ipcTransferSlots.length := by
    by_contra ge
    rw [List.getElem?_eq_none (by omega)] at cell
    cases cell
  simp only [List.mem_cons, List.not_mem_nil, or_false]
  omega

theorem read_conserves {wait : KernelM CallResult} (g : Kept k) (ht : k.thread? cur = some t)
    (fits : ReadFits k cur p) (standing' : k'.Standing)
    (waits : ∀ k', Returns (wait k) k' → Quiet k k')
    (ret : Returns (readWith cur p data hs wait k) k') :
    Kept k' ∧ Moved (readParties k cur p) k.held k'.held ∧ ReadDelivers k k' cur p := by
  have own := tableOf_eq ht
  have meets : Meets k .send cur p (fun w => receiveFrom cur w data hs) wait
      (readWith cur p data hs wait k) := meet_result g.standing ht
  generalize readWith cur p data hs wait k = out at meets ret
  have nothing : k.served .send p = none → ReadDelivers k k' cur p := by
    intro nobody w k₀ tab found
    rw [nobody] at found
    cases found
  cases meets with
  | failed e nobody =>
    obtain rfl := ret.of_err
    exact ⟨g, .refl _ _, nothing nobody⟩
  | faulted => exact absurd ret (not_returns_fault k)
  | wait _ _ _ _ _ nobody =>
    have quiet := waits k' ret
    exact ⟨g.of_quiet standing' quiet, quiet.1.held ▸ .refl _ _, nothing nobody⟩
  | @serve _ d d' q w call _ _ _ hd pop _ _ _ _ found =>
    have still := untouched_setChan k q (some d')
    obtain ⟨sizes, stay, moved, empty, arrived⟩ := receiveFrom_moves (k.setChan q (some d')) ht
      (fun loaded => own ▸ fits w _ found loaded) ret
    rw [still.held] at moved
    refine ⟨⟨standing', fun tid i x stash => ?_, fun tid n eq => g.sizes tid n
      ((sizes tid).symm.trans eq)⟩, moved.mono ?_, ?_⟩
    · by_cases eq : tid = w.id
      · subst eq
        have none_ : k'.stashed w.id i = none := by
          refine empty i ?_
          cases before : k.stashed w.id i with
          | none => exact Or.inr before
          | some y => exact Or.inl (g.cells before)
        rw [none_] at stash
        cases stash
      · have out : Place.stash tid i ∉ collectPlaces t w.id := eq
        obtain ⟨p', c, hc, mem⟩ := g.parked tid i x ((moved.outside out).symm.trans stash)
        refine ⟨p', stay p' tid ?_⟩
        -- the sender that has been served was the only one to leave its line
        by_cases at_q : p' = q
        · subst at_q
          rw [hd] at hc
          cases hc
          refine ⟨d', setChan_chans_same k p' _, ?_⟩
          exact (List.mem_cons.mp ((Side.pop_perm pop).1.subset mem)).resolve_left eq
        · exact ⟨c, by rw [setChan_chans_ne k at_q, hc], mem⟩
    · rintro (⟨tab, i⟩ | ⟨tid, i⟩) mem
      · exact own.trans mem
      · exact ⟨w, _, found, mem.symm⟩
    · intro w' k₀ tab found' htab i x stash
      rw [found] at found'
      cases found'
      have here := arrived tab (own.symm.trans htab) i (g.cells stash) x stash
      exact ⟨here, fun stab _ => arrived_of_moved moved here⟩

/-! ## The other operations -/

theorem quiet_resume (ht : k.thread? cur = some t) (ret : Returns (Kernel.resume cur k) k') :
    Quiet k k' := by
  have woken : Quiet k (wakeUp cur k) := quiet_modify k cur (by intro; rfl) (by intro; rfl)
  cases hc : t.call with
  | none =>
    have stuck : Kernel.resume cur k = .fault (wakeUp cur k) := by
      simp [Kernel.resume, Prog.bind_apply, currentThread, ht, hc]
    rw [stuck] at ret
    exact absurd ret (not_returns_fault _)
  | some call =>
    cases call with
    | write q =>
      rw [resume_write ht hc] at ret
      obtain rfl := ret.of_ok
      exact woken
    | read q hs =>
      rw [resume_read ht hc, ← finishRead_ok (wakeUp_thread? ht)] at ret
      exact woken.trans (quiet_finishRead ret)
    | readWithTimeout q hs dl =>
      rw [resume_readWithTimeout ht hc] at ret
      refine woken.trans ?_
      by_cases late : dl.any ((wakeUp cur k).ticks ≥ ·)
      · cases hq : (wakeUp cur k).chans q with
        | none =>
          simp [finishTimedRead, Prog.bind_apply, late, deref, hq] at ret
          exact absurd ret (not_returns_fault _)
        | some c =>
          have ran : finishTimedRead cur q dl t.ipcActualLen t.ipcBuf hs (wakeUp cur k) =
              .err .timedOut (((wakeUp cur k).setChan q (some (c.removeReceiver cur))).modifyThread
                cur (·.giveUp)) := by
            simp [finishTimedRead, Prog.bind_apply, late, deref, hq]
          rw [ran] at ret
          obtain rfl := ret.of_err
          have left : Quiet (wakeUp cur k) ((wakeUp cur k).setChan q (some (c.removeReceiver cur))) :=
            ⟨untouched_setChan _ _ _, sendersStay_setChan hq (c.removeReceiver_send cur)⟩
          refine left.trans (quiet_modify _ cur Thread.giveUp_id fun t => ?_)
          unfold Thread.giveUp
          split <;> rfl
      · have ran : finishTimedRead cur q dl t.ipcActualLen t.ipcBuf hs (wakeUp cur k) =
            finishRead cur t.ipcActualLen t.ipcBuf hs (wakeUp cur k) := by
          simp [finishTimedRead, Prog.bind_apply, late]
        rw [ran] at ret
        exact quiet_finishRead ret

theorem close_conserves {tab hv : Nat} (g : Kept k) (sound : Sound k (.close tab hv))
    (standing' : k'.Standing) (ret : Returns (sysClose tab hv k) k') :
    Kept k' ∧ ((closes k (.close tab hv) = none ∧ k' = k) ∨ ∃ (s : HandleSlot) (i : Nat),
      closes k (.close tab hv) = some s.object ∧ k.held (.table tab i) = some s.content ∧
        k'.held = Function.update k.held (.table tab i) none) := by
  cases take : (k.tables tab).take? (·.value == hv) with
  | none =>
    have failed : sysClose tab hv k = .err .badHandle k := by
      simp [sysClose, removeWithRights, Prog.bind_apply, take]
    rw [failed] at ret
    obtain rfl := ret.of_err
    exact ⟨g, Or.inl ⟨by simp [closes, Slots.take?_eq_none.mp take], rfl⟩⟩
  | some r =>
    obtain ⟨s, t'⟩ := r
    obtain ⟨i, full, cells⟩ := Slots.take?_set take
    have found := Slots.take?_find take
    have removed : (k.setTable tab t').held = Function.update k.held (.table tab i) none :=
      held_setTable k tab i cells (List.getElem?_eq_some_iff.mp full).1
    have ret' : Returns (dropObject s.object (k.setTable tab t')) k' := by
      simpa [sysClose, removeWithRights, Prog.bind_apply, take] using ret
    have still : Kernel.Untouched (k.setTable tab t') k' := by
      have within := untouched_dropObject s.object (k.setTable tab t')
      rcases ret' with ⟨_, ran⟩ | ⟨_, ran⟩
      · rwa [ran] at within
      · rwa [ran] at within
    refine ⟨⟨standing', fun tid m x stash => ?_, fun tid n eq => g.sizes tid n
      ((still.sizes tid).symm.trans eq)⟩, Or.inr ⟨s, i, by simp [closes, found], held_table full, ?_⟩⟩
    · have before : k.stashed tid m = some x :=
        (stashed_of_slots (k := k.setTable tab t') (still.slots tid) m).symm.trans stash
      obtain ⟨q, c, hc, mem⟩ := g.parked tid m x before
      have kept : k'.chans q = k.chans q := by
        refine dropObject_chans ret' fun r c' ho hc' => ?_
        have far : ∀ q', q' = r ∨ c'.peer = some q' → q ≠ q' := by
          rintro q' end_ rfl
          have empty := sound s r c' found ho hc' q end_ tid ⟨c, hc, mem⟩
          rw [loaded_eq_nil.mp empty m (g.cells before)] at before
          cases before
        exact ⟨far r (Or.inl rfl), fun peer => far q (Or.inr peer) rfl⟩
      exact ⟨q, c, kept.trans hc, mem⟩
    · rw [still.held, removed]

end Steps

end ChannelOp

end CapsuleOS
