import CapsuleOS.Ipc.HandleValues
import CapsuleOS.Ipc.Shelter

/-!
# Failed writes

`Channel::write` fails early, before it has touched anything, or when its waiting line is full. By then
it has moved up to two handles out of the table; it puts them back, but `add` stores them under new
values. A write that fails late has no effect exactly if it had no handle to move, and if it has not
taken a thread that is gone out of the peer's line.
-/
namespace CapsuleOS

open Lib

namespace Kernel

/-- What a failed write has to leave as it was. The order of the table's cells does not matter. -/
structure WriteUndone (cur chan : Nat) (k k' : Kernel) : Prop where
  handles : ∀ tab, k.tableOf cur = some tab →
    (k'.tables tab).occupants.Perm (k.tables tab).occupants
  endpoint : k'.chans chan = k.chans chan
  peer : ∀ c q, k.chans chan = some c → c.peer = some q → k'.chans q = k.chans q
  running : ∀ t, k.thread? cur = some t → t.state = .running →
    ∃ t', k'.thread? cur = some t' ∧ t'.state = .running

/-- The checks that come before anything is moved do not all pass. -/
def FailsEarly (k : Kernel) (cur self : Nat) : Prop :=
  k.thread? cur = none ∨ ∃ c, k.chans self = some c ∧ (c.state = .closed ∨ c.peer = none)

/-- The thread that waits first on the peer, if any, still exists. -/
def ReceiverLives (k : Kernel) (self : Nat) : Prop :=
  ∀ c q d r d', k.chans self = some c → c.peer = some q → k.chans q = some d →
    d.popReceiver = some (r, d') → k.thread? r ≠ none

/-- No handle of the message is in the table of the thread. -/
def MovesNothing (k : Kernel) (cur : Nat) (handles : List Nat) : Prop :=
  ∀ tab, k.tableOf cur = some tab → ∀ h ∈ handles.take 2, (k.tables tab).find? (·.value == h) = none

def Harmless (k : Kernel) (cur self : Nat) (handles : List Nat) : Prop :=
  k.FailsEarly cur self ∨ k.ReceiverLives self ∧ k.MovesNothing cur handles

/-- Dropping what an earlier call left in the transfer slots does not close this endpoint. -/
def Spares (k : Kernel) (cur p : Nat) : Prop :=
  ∀ i r rights, k.stashed cur i = some (.channel r, rights) →
    p ≠ r ∧ ∀ c, k.chans r = some c → c.peer ≠ some p

def SparesPair (k : Kernel) (cur self : Nat) : Prop :=
  k.Spares cur self ∧ ∀ c q, k.chans self = some c → c.peer = some q → k.Spares cur q

def nextValue (v : Nat) : Nat := (v + 1) % 2 ^ 32

/-- None of the next three values is in use in the table of the thread. -/
def DrawsFresh (k : Kernel) (cur : Nat) : Prop :=
  ∀ tab, k.tableOf cur = some tab → ∀ j ≤ 2, ∀ s ∈ (k.tables tab).occupants,
    s.value ≠ nextValue^[j] k.handleValueCounter

variable {k k' : Kernel} {cur self p tab : Nat} {data : List UInt8} {hs cells : List Nat} {t : Thread}

/-! ## Endpoints while objects are dropped -/

/-- Endpoints lose links and waiting receivers, and gain none. -/
def Fades (k k' : Kernel) : Prop :=
  ∀ p c', k'.chans p = some c' → ∃ c, k.chans p = some c ∧ (c'.peer = c.peer ∨ c'.peer = none) ∧
    c'.recvWaiters.occupants.length ≤ c.recvWaiters.occupants.length

instance : Std.Refl Fades := ⟨fun _ _ c hc => ⟨c, hc, Or.inl rfl, le_rfl⟩⟩

instance : IsTrans Kernel Fades where
  trans _ _ _ h h' p c hc := by
    obtain ⟨c₁, hc₁, peer₁, fewer₁⟩ := h' p c hc
    obtain ⟨c₀, hc₀, peer₀, fewer₀⟩ := h p c₁ hc₁
    refine ⟨c₀, hc₀, ?_, fewer₁.trans fewer₀⟩
    rcases peer₁ with same | gone
    · rwa [same]
    · exact Or.inr gone

theorem fades_shut {c : Channel} (hc : k.chans p = some c) :
    Fades k ((k.setChan p (some c.shut)).wakeAll c.waiters) := by
  intro q c' hc'
  rw [wakeAll_chans, setChan_chans] at hc'
  split_ifs at hc' with eq
  · cases hc'
    exact ⟨c, eq ▸ hc, Or.inr rfl, by simp [Channel.shut]⟩
  · exact ⟨c', hc', Or.inl rfl, le_rfl⟩

theorem fades_free (k : Kernel) (p : Nat) : Fades k (k.setChan p none) := by
  intro q c' hc'
  rw [setChan_chans] at hc'
  split_ifs at hc' with eq
  exact ⟨c', hc', Or.inl rfl, le_rfl⟩

theorem fades_close (p : Nat) : Prog.Within Fades (closeChannel p) := by
  intro k
  rw [closeChannel, Prog.bind_apply, deref]
  cases hc : k.chans p with
  | none => exact Std.Refl.refl k
  | some c =>
    simp only [Prog.bind_apply, shutEndpoint, Prog.modify_apply]
    cases hpeer : c.peer with
    | none => exact fades_shut hc
    | some q =>
      simp only [Prog.bind_apply, deref]
      cases hq : ((k.setChan p (some c.shut)).wakeAll c.waiters).chans q with
      | none => exact fades_shut hc
      | some d => exact IsTrans.trans _ _ _ (fades_shut hc) (fades_shut hq)

theorem fades_of_chans (h : k'.chans = k.chans) : Fades k k' :=
  fun _ c hc => ⟨c, h ▸ hc, Or.inl rfl, le_rfl⟩

theorem fades_handles : HandleFrame Fades where
  counter _ _ := fades_of_chans rfl
  table _ _ _ := fades_of_chans rfl
  mm _ _ := fades_of_chans rfl
  drop := within_drop fades_close fades_free

/-! ## Emptying the transfer slots -/

/-- The routine leaves the counter of handle values alone. -/
def SameCounter (k k' : Kernel) : Prop := k'.handleValueCounter = k.handleValueCounter

instance : Std.Refl SameCounter := ⟨fun _ => rfl⟩

instance : IsTrans Kernel SameCounter := ⟨fun _ _ _ h h' => h'.trans h⟩

theorem sameCounter_dropObject (o : KernelObject) : Prog.Within SameCounter (dropObject o) := by
  have mm : ∀ m : MmM Unit, Prog.Within SameCounter (onMm m) := by
    intro m k
    unfold onMm Prog.zoom
    split <;> rfl
  have wake : ∀ k tids, SameCounter k (wakeAll k tids) := by
    intro k tids
    obtain ⟨threads, queues, eq⟩ := wakeAll_eq k tids
    rw [eq]
    rfl
  cases o with
  | vmo v => exact mm _
  | vmar r => exact mm _
  | channel p => exact within_drop (within_closeChannel (fun _ _ _ => rfl) wake) (fun _ _ => rfl) p
  | port _ => exact .pure ()
  | process _ => exact .pure ()
  | thread _ => exact .pure ()

/-- What emptying the transfer slots of a thread leaves. -/
structure Tidied (cur : Nat) (k k' : Kernel) : Prop where
  tables : k'.tables = k.tables
  counter : k'.handleValueCounter = k.handleValueCounter
  table : k'.tableOf cur = k.tableOf cur
  slots : ∀ i, k'.stashed cur i = none ∨ k'.stashed cur i = k.stashed cur i
  sizes : (k'.thread? cur).map (·.ipcTransferSlots.length) =
    (k.thread? cur).map (·.ipcTransferSlots.length)

theorem Tidied.refl (cur : Nat) (k : Kernel) : Tidied cur k k :=
  ⟨rfl, rfl, rfl, fun _ => Or.inr rfl, rfl⟩

theorem Tidied.trans {k'' : Kernel} (h : Tidied cur k k') (h' : Tidied cur k' k'') :
    Tidied cur k k'' where
  tables := h'.tables.trans h.tables
  counter := h'.counter.trans h.counter
  table := h'.table.trans h.table
  slots i := by
    rcases h'.slots i with gone | same
    · exact Or.inl gone
    · rw [same]
      exact h.slots i
  sizes := h'.sizes.trans h.sizes

theorem stashed_emptied (k : Kernel) (cur i j : Nat) :
    (setStash cur i none k).stashed cur j = if j = i then none else k.stashed cur j := by
  have eq := congrFun (held_setStash (k := k) (o := none) cur i (Or.inl rfl)) (.stash cur j)
  rw [held] at eq
  rw [eq]
  split_ifs with same
  · rw [same, Function.update_self]
  · rw [Function.update_of_ne (by simpa using same)]
    rfl

theorem tidied_setStash (k : Kernel) (cur i : Nat) : Tidied cur k (setStash cur i none k) where
  tables := rfl
  counter := rfl
  table := tableOf_setStash cur i none cur
  slots j := by
    rw [stashed_emptied]
    split_ifs
    · exact Or.inl rfl
    · exact Or.inr rfl
  sizes := setStash_slots cur i none k cur

theorem tidied_dropObject {o : KernelObject} (ran : dropObject o k = .ok () k') : Tidied cur k k' := by
  have still := untouched_dropObject o k
  have counter := sameCounter_dropObject o k
  have steady := steady_handles.dropObject o k
  rw [ran] at still counter steady
  exact ⟨still.tables, counter, tableOf_of_steady steady cur,
    fun i => Or.inr (stashed_of_slots (still.slots cur) i), still.sizes cur⟩

theorem clearStash_tidied (ran : clearStash cur cells k = .ok () k') :
    Tidied cur k k' ∧ ∀ i ∈ cells, k'.stashed cur i = none := by
  induction cells generalizing k with
  | nil =>
    cases ran
    exact ⟨.refl cur _, fun i mem => by cases mem⟩
  | cons i cells ih =>
    rw [clearStash, Prog.bind_ok (Prog.get_apply k)] at ran
    cases stash : k.stashed cur i with
    | none =>
      simp only [stash] at ran
      obtain ⟨tidied, empty⟩ := ih ran
      refine ⟨tidied, fun j mem => ?_⟩
      rcases List.mem_cons.mp mem with rfl | later
      · rcases tidied.slots j with gone | same
        · exact gone
        · rw [same, stash]
      · exact empty j later
    | some x =>
      obtain ⟨obj, r⟩ := x
      simp only [stash] at ran
      obtain ⟨_, k₁, emptied, ran₁⟩ := Prog.bind_eq_ok ran
      cases emptied
      obtain ⟨_, k₂, dropped, rest⟩ := Prog.bind_eq_ok ran₁
      have first := tidied_setStash k cur i
      have second : Tidied cur (setStash cur i none k) k₂ := tidied_dropObject dropped
      obtain ⟨tidied, empty⟩ := ih rest
      refine ⟨(first.trans second).trans tidied, fun j mem => ?_⟩
      rcases List.mem_cons.mp mem with rfl | later
      · have gone : (setStash cur j none k).stashed cur j = none := by rw [stashed_emptied, if_pos rfl]
        rcases (second.trans tidied).slots j with empty | same
        · exact empty
        · rw [same, gone]
      · exact empty j later

theorem Spares.later {k₁ : Kernel} (h : k.Spares cur p) (slots : ∀ i, k₁.stashed cur i = none ∨
    k₁.stashed cur i = k.stashed cur i) (fades : Fades k k₁) : k₁.Spares cur p := by
  intro i r rights stash
  have old : k.stashed cur i = some (.channel r, rights) := by
    rcases slots i with gone | same
    · rw [gone] at stash
      cases stash
    · rwa [same] at stash
  obtain ⟨ne, apart⟩ := h i r rights old
  refine ⟨ne, fun c' hc' => ?_⟩
  obtain ⟨c, hc, peer, _⟩ := fades r c' hc'
  rcases peer with same | gone
  · rw [same]
    exact apart c hc
  · rw [gone]
    simp

/-- An endpoint that nothing in the transfer slots is linked with stays as it is. -/
theorem clearStash_spares (spared : k.Spares cur p) (ran : clearStash cur cells k = .ok () k') :
    k'.chans p = k.chans p := by
  induction cells generalizing k with
  | nil =>
    cases ran
    rfl
  | cons i cells ih =>
    rw [clearStash, Prog.bind_ok (Prog.get_apply k)] at ran
    cases stash : k.stashed cur i with
    | none =>
      simp only [stash] at ran
      exact ih spared ran
    | some x =>
      obtain ⟨obj, r⟩ := x
      simp only [stash] at ran
      obtain ⟨_, k₁, emptied, ran₁⟩ := Prog.bind_eq_ok ran
      cases emptied
      obtain ⟨_, k₂, dropped, rest⟩ := Prog.bind_eq_ok ran₁
      have fades : Fades k k₂ := by
        have within := fades_handles.dropObject obj (setStash cur i none k)
        rwa [dropped] at within
      have slots := ((tidied_setStash k cur i).trans (tidied_dropObject dropped)).slots
      have kept : k₂.chans p = k.chans p := by
        refine ChannelOp.dropObject_chans (Or.inl ⟨(), dropped⟩) fun q c eq hc => ?_
        obtain ⟨ne, apart⟩ := spared i q r (eq ▸ stash)
        exact ⟨ne, apart c hc⟩
      rw [ih (spared.later slots fades) rest, kept]

/-! ## Taking handles out -/

/-- The counter of handle values moves on by at most `n`. -/
def Draws (n : Nat) (k k' : Kernel) : Prop :=
  ∃ j ≤ n, k'.handleValueCounter = nextValue^[j] k.handleValueCounter

theorem Draws.none (h : k'.handleValueCounter = k.handleValueCounter) (n : Nat) : Draws n k k' :=
  ⟨0, n.zero_le, h⟩

theorem Draws.trans {m n : Nat} {k'' : Kernel} (h : Draws m k k') (h' : Draws n k' k'') :
    Draws (m + n) k k'' := by
  obtain ⟨i, hi, first⟩ := h
  obtain ⟨j, hj, second⟩ := h'
  refine ⟨j + i, by omega, ?_⟩
  rw [second, first, Function.iterate_add_apply]

theorem Draws.mono {m n : Nat} (h : Draws m k k') (le : m ≤ n) : Draws n k k' := by
  obtain ⟨j, hj, eq⟩ := h
  exact ⟨j, hj.trans le, eq⟩

theorem draws_addHandle (tab : Nat) (o : KernelObject) (rights : Nat) :
    Prog.Within (Draws 1) (addHandle tab o rights) := by
  intro k
  have put : Prog.Within SameCounter (putSlot tab ⟨k.handleValueCounter, rights, o⟩) := by
    intro k
    unfold putSlot
    split
    · rfl
    · exact ((sameCounter_dropObject o).bind fun _ => .throw _) k
  have rest := (put.bind fun _ => .pure k.handleValueCounter) k.bumpHandleValue
  exact ⟨1, le_rfl, rest⟩

theorem draws_duplicateHandle (tab h : Nat) : Prog.Within (Draws 1) (duplicateHandle tab h 0) := by
  intro k
  rw [duplicateHandle]
  rcases HandleOp.findSlot_cases tab h 0 k with ⟨e, found⟩ | ⟨s, found⟩
  · rw [Prog.bind_err found]
    exact .none rfl 1
  · rw [Prog.bind_ok found]
    cases duplicateObject s.object with
    | error e => exact .none rfl 1
    | ok o => exact draws_addHandle tab o s.rights k

/-- A handle has been taken, so that the table has room. -/
structure Freed (tab : Nat) (k k' : Kernel) : Prop where
  room : k'.RoomFor tab 1
  draws : Draws 1 k k'
  threads : k'.thread? = k.thread?

theorem removeTaken_frees {source : Nat} (find : (k.tables tab).find? (·.value == source) ≠ none) :
    ∃ x t, removeTaken tab source k = .ok (some x) (k.setTable tab t) ∧
      (k.setTable tab t).RoomFor tab 1 := by
  cases take : (k.tables tab).take? (·.value == source) with
  | none => exact absurd (Slots.take?_eq_none.mp take) find
  | some r =>
    obtain ⟨s, t⟩ := r
    refine ⟨_, t, removeTaken_some take, ?_⟩
    have whole := (Slots.take?_perm take).length_eq
    have most := (k.tables tab).occupants_length_le
    rw [List.length_cons] at whole
    rw [RoomFor, setTable_tables_same]
    omega

/-- A handle that is in the table can be taken: a duplicate, or the handle itself. -/
theorem takeHandle_frees {h : Nat} (find : (k.tables tab).find? (·.value == h) ≠ none) :
    Prog.Post (takeHandle tab h) k (fun r k' => r ≠ none ∧ Freed tab k k') fun _ => True := by
  have duplicated := (duplicateHandle_doubled tab h k).and (.of_within (draws_duplicateHandle tab h))
  refine Prog.Post.attempt_bind duplicated (fun hv k₁ done => ?_) (fun e k₁ failed => ?_)
    fun _ _ => trivial
  · change Prog.Post (removeTaken tab hv) k₁ _ _
    obtain ⟨⟨only, s, value, _, perm⟩, draws⟩ := done
    have here : (k₁.tables tab).find? (·.value == hv) ≠ none := by
      rw [Slots.find?_eq, Ne, List.find?_eq_none]
      exact fun absent => absent s (perm.mem_iff.mpr List.mem_cons_self) (by simpa using value)
    obtain ⟨x, t, ran, room⟩ := removeTaken_frees here
    exact .of_ok ⟨_, _, ran, by simp, room, draws, only.threads⟩
  · change Prog.Post (removeTaken tab h) k₁ _ _
    obtain ⟨⟨only, tables⟩, draws⟩ := failed
    have here : (k₁.tables tab).find? (·.value == h) ≠ none := by rwa [tables]
    obtain ⟨x, t, ran, room⟩ := removeTaken_frees here
    exact .of_ok ⟨_, _, ran, by simp, room, draws, only.threads⟩

/-- The table has room, and something waits in the first transfer slot. -/
def Loaded (tab cur : Nat) (k : Kernel) : Prop := k.RoomFor tab 1 ∧ k.stashed cur 0 ≠ none

theorem stashed_setStash_ne (k : Kernel) {tid i j : Nat} (v : Option (KernelObject × Nat)) (ne : j ≠ i) :
    (setStash tid i v k).stashed tid j = k.stashed tid j := by
  rw [stashed, stashed, setStash_thread?, if_pos rfl]
  cases k.thread? tid with
  | none => rfl
  | some t => simp [List.getElem?_set_ne (Ne.symm ne)]

theorem stashed_setStash_same {i : Nat} (x : KernelObject × Nat) (ht : k.thread? cur = some t)
    (lt : i < t.ipcTransferSlots.length) : (setStash cur i (some x) k).stashed cur i = some x := by
  rw [stashed, setStash_thread?, if_pos rfl, ht]
  simp [lt]

theorem stashHandles_loaded {i : Nat} (loaded : Loaded tab cur k) (later : 0 < i) (hs : List Nat) :
    Prog.Post (stashHandles tab cur hs i) k
      (fun _ k' => Loaded tab cur k' ∧ Draws hs.length k k') fun _ => True := by
  induction hs generalizing k i with
  | nil => exact .pure ⟨loaded, .none rfl _⟩
  | cons h hs ih =>
    cases find : (k.tables tab).find? (·.value == h) with
    | none =>
      have skip := takeHandle_none (Slots.take?_eq_none.mpr find)
      refine .congr (Prog.bind_ok skip) ((ih loaded later).mono (fun _ k' done => ?_) fun _ => id)
      exact ⟨done.1, done.2.mono (by simp)⟩
    | some s =>
      refine (takeHandle_frees (by simp [find])).bind fun r k₁ taken => ?_
      obtain ⟨some_, freed⟩ := taken
      cases r with
      | none => exact absurd rfl some_
      | some x =>
        have still : (setStash cur i (some x) k₁).stashed cur 0 ≠ none := by
          rw [stashed_setStash_ne k₁ _ (by omega), stashed, freed.threads]
          exact loaded.2
        have next : Loaded tab cur (setStash cur i (some x) k₁) := ⟨freed.room, still⟩
        refine .modify_bind ((ih next (by omega)).mono (fun _ k' done => ⟨done.1, ?_⟩) fun _ => id)
        have all := freed.draws.trans (done.2 : Draws hs.length k₁ k')
        exact all.mono (by simp [Nat.add_comm])

/-- If the message names a handle of the table, the first one that it names is stashed. -/
theorem stashHandles_loads (ht : k.thread? cur = some t) (slot : 0 < t.ipcTransferSlots.length)
    (named : ∃ h ∈ hs, (k.tables tab).find? (·.value == h) ≠ none) :
    Prog.Post (stashHandles tab cur hs 0) k
      (fun _ k' => Loaded tab cur k' ∧ Draws hs.length k k') fun _ => True := by
  induction hs with
  | nil =>
    obtain ⟨h, mem, _⟩ := named
    cases mem
  | cons h hs ih =>
    cases find : (k.tables tab).find? (·.value == h) with
    | none =>
      have skip := takeHandle_none (Slots.take?_eq_none.mpr find)
      have rest : ∃ h ∈ hs, (k.tables tab).find? (·.value == h) ≠ none := by
        obtain ⟨h', mem, found⟩ := named
        rcases List.mem_cons.mp mem with rfl | tail
        · exact absurd find found
        · exact ⟨h', tail, found⟩
      refine .congr (Prog.bind_ok skip) ((ih rest).mono (fun _ k' done => ?_) fun _ => id)
      exact ⟨done.1, done.2.mono (by simp)⟩
    | some s =>
      refine (takeHandle_frees (by simp [find])).bind fun r k₁ taken => ?_
      obtain ⟨some_, freed⟩ := taken
      cases r with
      | none => exact absurd rfl some_
      | some x =>
        have here : (setStash cur 0 (some x) k₁).stashed cur 0 = some x :=
          stashed_setStash_same x (by rw [freed.threads, ht]) slot
        have next : Loaded tab cur (setStash cur 0 (some x) k₁) := ⟨freed.room, by simp [here]⟩
        refine .modify_bind ((stashHandles_loaded next one_pos hs).mono (fun _ k' done => ⟨done.1, ?_⟩)
          fun _ => id)
        have all := freed.draws.trans (done.2 : Draws hs.length k₁ k')
        exact all.mono (by simp [Nat.add_comm])

theorem stashHandles_nothing (absent : ∀ h ∈ hs, (k.tables tab).find? (·.value == h) = none) (i : Nat) :
    stashHandles tab cur hs i k = .ok () k := by
  induction hs with
  | nil => rfl
  | cons h hs ih =>
    have skip := takeHandle_none (Slots.take?_eq_none.mpr (absent h List.mem_cons_self))
    rw [stashHandles, Prog.bind_ok skip]
    exact ih fun h' mem => absent h' (List.mem_cons_of_mem _ mem)

/-! ## Putting them back -/

/-- Nothing leaves the table. -/
def Grows (tab : Nat) (k k' : Kernel) : Prop :=
  (k.tables tab).occupants.Subperm (k'.tables tab).occupants

instance : Std.Refl (Grows tab) := ⟨fun _ => .refl _⟩

instance : IsTrans Kernel (Grows tab) := ⟨fun _ _ _ h h' => h.trans h'⟩

theorem grows_of_tables (h : k'.tables = k.tables) : Grows tab k k' := by
  rw [Grows, h]

theorem grows_addHandle (tab' : Nat) (o : KernelObject) (rights : Nat) :
    Prog.Within (Grows tab) (addHandle tab' o rights) := by
  intro k
  rcases HandleOp.addHandle_tables tab' o rights k with ⟨same, _⟩ | ⟨t, s, put, _, eq⟩
  · exact grows_of_tables same
  · rw [Grows, eq]
    by_cases own : tab = tab'
    · rw [own, setTable_tables_same]
      exact (List.sublist_cons_self _ _).subperm.trans (Slots.insert?_perm put).symm.subperm
    · rw [setTable_tables_ne _ _ own]

theorem grows_restoreStash (tab' : Nat) (cells : List Nat) :
    Prog.Within (Grows tab) (restoreStash tab' cur cells) := by
  induction cells with
  | nil => exact .pure ()
  | cons i cells ih =>
    refine Prog.Within.get.bind fun k => ?_
    cases k.stashed cur i with
    | none => exact ih
    | some x =>
      have emptied : Prog.Within (Grows tab) (Prog.modify (setStash cur i none) : KernelM Unit) :=
        .modify fun _ => grows_of_tables rfl
      exact emptied.bind fun _ => (grows_addHandle tab' x.1 x.2).attempt.bind fun _ => ih

/-- The first object that is put back gets the next value. -/
theorem restoreStash_renames (loaded : Loaded tab cur k) :
    Prog.Post (restoreStash tab cur (0 :: cells)) k
      (fun _ k' => ∃ s ∈ (k'.tables tab).occupants, s.value = k.handleValueCounter) fun _ => True := by
  obtain ⟨room, stash⟩ := loaded
  obtain ⟨x, stash⟩ := Option.ne_none_iff_exists'.mp stash
  obtain ⟨t, put, ran⟩ := addHandle_room (k := setStash cur 0 none k) tab x.1 x.2 room
  set k₁ := (setStash cur 0 none k).bumpHandleValue.setTable tab t with hk₁
  have stored : (⟨k.handleValueCounter, x.2, x.1⟩ : HandleSlot) ∈ (k₁.tables tab).occupants := by
    rw [hk₁, setTable_tables_same]
    exact (Slots.insert?_perm put).mem_iff.mpr List.mem_cons_self
  have rest : restoreStash tab cur (0 :: cells) k = restoreStash tab cur cells k₁ := by
    rw [restoreStash, Prog.bind_ok (Prog.get_apply k)]
    simp only [stash]
    rw [Prog.bind_ok (Prog.modify_apply _ k), Prog.bind_ok (Prog.attempt_ok ran)]
  have kept : Prog.Within (Grows tab) (restoreStash tab cur cells) := grows_restoreStash tab cells
  refine .congr rest ((Prog.Post.of_within kept).mono (fun _ k' grows => ?_) fun _ _ => trivial)
  exact ⟨_, grows.subset stored, rfl⟩

theorem restoreStash_nothing (empty : ∀ i ∈ cells, k.stashed cur i = none) :
    restoreStash tab cur cells k = .ok () k := by
  induction cells with
  | nil => rfl
  | cons i cells ih =>
    rw [restoreStash, Prog.bind_ok (Prog.get_apply k)]
    simp only [empty i List.mem_cons_self]
    exact ih fun j mem => empty j (List.mem_cons_of_mem _ mem)

/-! ## Writes that give up -/

theorem abandonWrite_err {tab : Option Nat} {e : Status} (ran : abandonWrite cur tab k = .err e k') :
    ∃ k₁, restoreMessage cur tab k = .ok () k₁ ∧ k' = k₁.modifyThread cur (·.setState .running) := by
  rcases Prog.bind_eq_err ran with bad | ⟨_, k₁, restored, last⟩
  · cases tab with
    | none => exact absurd bad (Prog.NoErr.pure () _ _ _)
    | some tab => exact absurd bad (noErr_restoreStash tab cur [0, 1] _ _ _)
  · cases last
    exact ⟨k₁, restored, rfl⟩

/-- A write that waits and fails: the transfer slots are emptied, the handles moved there and back. -/
theorem waitSender_abandons {e : Status} (ht : k.thread? cur = some t)
    (ran : waitSender cur self data hs k = .err e k') :
    ∃ k₁ k₂, clearStash cur [0, 1] (k.modifyThread cur (·.block data)) = .ok () k₁ ∧
      (k.tableOf cur = none → k₂ = k₁) ∧
      (∀ tab, k.tableOf cur = some tab → ∃ m, stashHandles tab cur (hs.take 2) 0 k₁ = .ok () m ∧
        restoreStash tab cur [0, 1] m = .ok () k₂) ∧
      k' = k₂.modifyThread cur (·.setState .running) := by
  set k₀ := k.modifyThread cur (·.block data) with hk₀
  have table₀ : k₀.tableOf cur = k.tableOf cur := tableOf_modify cur (by intro; rfl) (by intro; rfl)
  have thread : ∀ k₁, clearStash cur [0, 1] k₀ = .ok () k₁ → ∃ t₁, k₁.thread? cur = some t₁ ∧
      t₁.handleTable = k.tableOf cur := by
    intro k₁ cleared
    have sizes := (clearStash_tidied cleared).1.sizes
    have table := (clearStash_tidied cleared).1.table
    rw [hk₀, modifyThread_same k (by intro; rfl) ht] at sizes
    cases found : k₁.thread? cur with
    | none =>
      rw [found] at sizes
      cases sizes
    | some t₁ => exact ⟨t₁, rfl, by rw [← table₀, ← table, tableOf, found]; rfl⟩
  rcases waitSender_err ran with bad | ⟨tab, k₂, c, packed, _, _, gave⟩
  · -- nothing can fail before the handles are stashed
    exfalso
    rcases Prog.bind_eq_err bad with bad | ⟨_, k₁, cleared, rest⟩
    · exact noErr_clearStash cur [0, 1] _ _ _ bad
    · obtain ⟨t₁, found, _⟩ := thread k₁ cleared
      rw [Prog.bind_ok (show currentThread cur k₁ = .ok t₁ k₁ by simp [currentThread, found])] at rest
      cases own : t₁.handleTable with
      | none =>
        rw [own] at rest
        cases rest
      | some tab =>
        rw [own] at rest
        rcases Prog.bind_eq_err (m := stashHandles tab cur (hs.take 2) 0) rest with bad | ⟨_, _, _, last⟩
        · exact noErr_stashHandles tab cur _ 0 _ _ _ bad
        · cases last
  · obtain ⟨k₃, restored, rfl⟩ := abandonWrite_err gave
    obtain ⟨_, k₁, cleared, rest⟩ := Prog.bind_eq_ok packed
    obtain ⟨t₁, found, own⟩ := thread k₁ cleared
    rw [Prog.bind_ok (show currentThread cur k₁ = .ok t₁ k₁ by simp [currentThread, found])] at rest
    refine ⟨k₁, k₃, cleared, fun none_ => ?_, fun tab' some_ => ?_, rfl⟩
    · rw [none_] at own
      rw [own] at rest
      cases rest
      cases restored
      rfl
    · rw [some_] at own
      rw [own] at rest
      obtain ⟨_, m, stashed, last⟩ := Prog.bind_eq_ok (m := stashHandles tab' cur (hs.take 2) 0) rest
      cases last
      exact ⟨_, stashed, restored⟩

/-- How a write fails: before anything is moved, or after it has looked for a receiver in vain. -/
theorem channelWrite_err {e : Status} (ran : channelWrite cur self data hs k = .err e k') :
    k.FailsEarly cur self ∧ k' = k ∨
      ∃ c t q d, k.chans self = some c ∧ c.state ≠ .closed ∧ k.thread? cur = some t ∧
        c.peer = some q ∧ k.chans q = some d ∧
        (d.popReceiver = none ∧ waitSender cur self data hs k = .err e k' ∨
          ∃ r d', d.popReceiver = some (r, d') ∧ k.thread? r = none ∧
            waitSender cur self data hs (k.setChan q (some d')) = .err e k') := by
  rw [channelWrite] at ran
  cases hc : k.chans self with
  | none => simp [meet, deref, hc] at ran
  | some c =>
    by_cases closed : c.state = .closed
    · simp only [meet, Prog.bind_apply, deref, hc, closed, if_pos, Prog.throw_apply] at ran
      cases ran
      exact Or.inl ⟨Or.inr ⟨c, hc, Or.inl closed⟩, rfl⟩
    · cases ht : k.thread? cur with
      | none =>
        simp only [meet, Prog.bind_apply, deref, hc, closed, if_false, currentThread, ht] at ran
        cases ran
        exact Or.inl ⟨Or.inl ht, rfl⟩
      | some t =>
        cases peer : c.peer with
        | none =>
          simp only [meet, Prog.bind_apply, deref, hc, closed, if_false, currentThread, ht, peer,
            Prog.throw_apply] at ran
          cases ran
          exact Or.inl ⟨Or.inr ⟨c, hc, Or.inr peer⟩, rfl⟩
        | some q =>
          cases hd : k.chans q with
          | none =>
            simp [meet, Prog.bind_apply, deref, hc, closed, currentThread, ht, peer, takeWaiter, hd]
              at ran
          | some d =>
            refine Or.inr ⟨c, t, q, d, rfl, closed, rfl, peer, hd, ?_⟩
            cases pop : d.popReceiver with
            | none =>
              rw [meet_wait hc closed ht peer hd (show Side.recv.pop d = none from pop)] at ran
              exact Or.inl ⟨rfl, ran⟩
            | some w =>
              obtain ⟨r, d'⟩ := w
              have pop' : Side.recv.pop d = some (r, d') := pop
              cases hw : k.thread? r with
              | some w =>
                rw [meet_serve hc closed ht peer hd pop' hw] at ran
                exact absurd ran (sendTo_noErr (k := k.setChan q (some d')) ht e)
              | none =>
                have skipped : meet .recv cur self (fun w => sendTo cur w data hs)
                    (waitSender cur self data hs) k =
                      waitSender cur self data hs (k.setChan q (some d')) := by
                  simp [meet, Prog.bind_apply, deref, hc, closed, currentThread, ht, peer, takeWaiter,
                    hd, pop', hw]
                rw [skipped] at ran
                exact Or.inr ⟨r, d', rfl, hw, ran⟩

/-- A late failure with nothing to move. -/
theorem WriteUndone.of_nothing {e : Status} (ht : k.thread? cur = some t)
    (nothing : k.MovesNothing cur hs) (spares : k.SparesPair cur self)
    (ran : waitSender cur self data hs k = .err e k') : WriteUndone cur self k k' := by
  obtain ⟨k₁, k₂, cleared, bare, moved, rfl⟩ := waitSender_abandons ht ran
  obtain ⟨tidied, empty⟩ := clearStash_tidied cleared
  have tables : k₁.tables = k.tables := tidied.tables
  have still : Untouched k (k.modifyThread cur (·.block data)) :=
    .of_modify k cur (by intro; rfl) (by intro; rfl)
  have blocked : ∀ p, k.Spares cur p → (k.modifyThread cur (·.block data)).Spares cur p := fun p spared =>
    spared.later (fun i => Or.inr (stashed_of_slots (still.slots cur) i)) (fades_of_chans rfl)
  have chans : ∀ p, k.Spares cur p → k₁.chans p = k.chans p := by
    intro p spared
    have kept := clearStash_spares (blocked p spared) cleared
    exact kept
  have same : k₂ = k₁ := by
    cases own : k.tableOf cur with
    | none => exact bare own
    | some tab =>
      obtain ⟨m, stashed, restored⟩ := moved tab own
      rw [stashHandles_nothing (fun h mem => by rw [tables]; exact nothing tab own h mem) 0] at stashed
      cases stashed
      rw [restoreStash_nothing empty] at restored
      cases restored
      rfl
  subst same
  refine ⟨fun tab _ => ?_, chans self spares.1, fun c q hc peer => chans q (spares.2 c q hc peer), ?_⟩
  · change (k₂.tables tab).occupants.Perm _
    rw [tables]
  · intro u _ _
    have sizes := tidied.sizes
    rw [modifyThread_same k (by intro; rfl) ht] at sizes
    cases found : k₂.thread? cur with
    | none =>
      rw [found] at sizes
      cases sizes
    | some t₂ => exact ⟨_, modifyThread_same k₂ (by intro; rfl) found, rfl⟩

/-- A late failure with a handle to move puts it back under a new value. -/
theorem WriteUndone.nothing {e : Status} (ht : k.thread? cur = some t)
    (slot : 0 < t.ipcTransferSlots.length) (fresh : k.DrawsFresh cur)
    (ran : waitSender cur self data hs k = .err e k')
    (handles : ∀ tab, k.tableOf cur = some tab →
      (k'.tables tab).occupants.Perm (k.tables tab).occupants) : k.MovesNothing cur hs := by
  intro tab own h mem
  by_contra found
  obtain ⟨k₁, k₂, cleared, _, moved, rfl⟩ := waitSender_abandons ht ran
  obtain ⟨tidied, _⟩ := clearStash_tidied cleared
  obtain ⟨m, stashed, restored⟩ := moved tab own
  have tables : k₁.tables = k.tables := tidied.tables
  have counter : k₁.handleValueCounter = k.handleValueCounter := tidied.counter
  obtain ⟨t₁, ht₁, slot₁⟩ : ∃ t₁, k₁.thread? cur = some t₁ ∧ 0 < t₁.ipcTransferSlots.length := by
    have sizes := tidied.sizes
    rw [modifyThread_same k (by intro; rfl) ht] at sizes
    obtain ⟨t₁, ht₁, eq⟩ := Option.map_eq_some_iff.mp sizes
    exact ⟨t₁, ht₁, by rw [eq]; exact slot⟩
  obtain ⟨loaded, j, few, drawn⟩ := (stashHandles_loads ht₁ slot₁
    ⟨h, mem, by rwa [tables]⟩).ok _ _ stashed
  obtain ⟨s, stored, value⟩ := (restoreStash_renames loaded).ok _ _ restored
  have old : s ∈ (k.tables tab).occupants := (handles tab own).mem_iff.mp stored
  have small : j ≤ 2 := few.trans (List.length_take_le 2 hs)
  exact fresh tab own j small s old (by rw [value, drawn, counter])

/-- A write that gives up adds nobody to a receiving line. -/
theorem waitSender_fades {e : Status} (ht : k.thread? cur = some t)
    (ran : waitSender cur self data hs k = .err e k') : Fades k k' := by
  have calls := fades_handles.calls
  have slot : ∀ k i o, Fades k (setStash cur i o k) := fun _ _ _ => fades_of_chans rfl
  obtain ⟨k₁, k₂, cleared, bare, moved, rfl⟩ := waitSender_abandons ht ran
  have first : Fades k k₁ := by
    have within := calls.clearStash slot [0, 1] (k.modifyThread cur (·.block data))
    rwa [cleared] at within
  have second : Fades k₁ k₂ := by
    cases own : k.tableOf cur with
    | none =>
      rw [bare own]
      exact Std.Refl.refl _
    | some tab =>
      obtain ⟨m, stashed, restored⟩ := moved tab own
      have there := calls.stashHandles slot tab (hs.take 2) 0 k₁
      have back := calls.restoreStash slot tab [0, 1] m
      rw [stashed] at there
      rw [restored] at back
      exact IsTrans.trans _ _ _ there back
  exact IsTrans.trans _ _ _ first second

/-- A write that fails has left everything as it was if it failed early, or if it moved no handle and
found no thread that is gone in the peer's line; and only then, as long as values do not recur. -/
theorem failed_write_undone_iff {e : Status} (ran : channelWrite cur self data hs k = .err e k') :
    (k.SparesPair cur self → k.Harmless cur self hs → WriteUndone cur self k k') ∧
      (k.DrawsFresh cur → (∀ t, k.thread? cur = some t → 0 < t.ipcTransferSlots.length) →
        WriteUndone cur self k k' → k.Harmless cur self hs) := by
  rcases channelWrite_err ran with ⟨early, rfl⟩ | ⟨c, t, q, d, hc, open_, ht, peer, hd, late⟩
  · refine ⟨fun _ _ => ⟨fun _ _ => .refl _, rfl, fun _ _ _ _ => rfl, ?_⟩, fun _ _ _ => Or.inl early⟩
    exact fun t ht running => ⟨t, ht, running⟩
  · have not_early : ¬ k.FailsEarly cur self := by
      rintro (gone | ⟨c', hc', why⟩)
      · simp [ht] at gone
      · rw [hc] at hc'
        cases hc'
        rcases why with closed | single
        · exact open_ closed
        · simp [peer] at single
    rcases late with ⟨pop, ran⟩ | ⟨r, d', pop, gone, ran⟩
    · refine ⟨fun spares harmless => ?_, fun fresh slots undone => Or.inr ⟨?_, ?_⟩⟩
      · exact .of_nothing ht (harmless.resolve_left not_early).2 spares ran
      · intro c' q' d₁ r d' hc' peer' hd₁ pop'
        rw [hc] at hc'
        cases hc'
        rw [peer] at peer'
        cases peer'
        rw [hd] at hd₁
        cases hd₁
        rw [pop] at pop'
        cases pop'
      · exact WriteUndone.nothing ht (slots t ht) fresh ran undone.handles
    · refine ⟨fun _ harmless => ?_, fun _ _ undone => ?_⟩
      · exact absurd gone ((harmless.resolve_left not_early).1 c q d r d' hc peer hd pop)
      · -- the peer's line is shorter than it was
        exfalso
        have now : k'.chans q = some d := by rw [undone.peer c q hc peer, hd]
        obtain ⟨d₁, hd₁, _, fewer⟩ := waitSender_fades (k := k.setChan q (some d')) ht ran q d now
        rw [setChan_chans_same] at hd₁
        cases hd₁
        have leaves : Side.recv.pop d = some (r, d') := pop
        have before := (Side.pop_perm leaves).1.length_eq
        simp only [Side.queue, List.length_cons] at before
        omega

/-- Eight threads wait with a write on the endpoint 100. -/
def demoCrowded : Kernel :=
  let threads : List (Option Thread) := (List.range 10).map fun i => some (demoThread (i + 1))
  [3, 4, 5, 6, 7, 8, 9, 10].foldl (fun k cur => (channelWrite cur 100 [] [] k).state)
    { demo (.port 9) with threads := ⟨threads ++ List.replicate 6 none, rfl⟩ }

/-- What the machine does with a ninth write of the first thread, and what it looked like before. -/
theorem demoCrowded_computed :
    ((channelWrite 1 100 [7] [] demoCrowded).error? = some .noMemory ∧
      (channelWrite 1 100 [7] [5] demoCrowded).error? = some .noMemory ∧
      ((channelWrite 1 100 [7] [5] demoCrowded).state.tables 1).occupants = [⟨1000, 3, .port 9⟩]) ∧
    demoCrowded.thread? 1 = some (demoThread 1) ∧
    (demoCrowded.tableOf 1 = some 1 ∧ (demoCrowded.tables 1).occupants = [⟨5, 3, .port 9⟩]) ∧
    demoCrowded.handleValueCounter = 1000 ∧
    demoCrowded.chans 200 = some { Channel.fresh 2 with peer := some 100 } ∧
    demoCrowded.chans 100 = some { Channel.fresh 1 with
      peer := some 200
      sendWaiters := ⟨[some 3, some 4, some 5, some 6, some 7, some 8, some 9, some 10], rfl⟩ } := by
  decide +kernel

theorem demoCrowded_refuses {hs : List Nat} (named : hs = [] ∨ hs = [5]) :
    channelWrite 1 100 [7] hs demoCrowded =
      .err .noMemory (channelWrite 1 100 [7] hs demoCrowded).state := by
  rcases named with rfl | rfl
  · exact Outcome.eq_err_of_error? demoCrowded_computed.1.1
  · exact Outcome.eq_err_of_error? demoCrowded_computed.1.2.1

theorem demoCrowded_thread : demoCrowded.thread? 1 = some (demoThread 1) := demoCrowded_computed.2.1

theorem demoCrowded_table : demoCrowded.tableOf 1 = some 1 ∧
    (demoCrowded.tables 1).occupants = [⟨5, 3, .port 9⟩] := demoCrowded_computed.2.2.1

/-- A ninth write without handles leaves everything as it was, one with the handle 5 does not. -/
theorem failed_write_undone_iff_crowded :
    WriteUndone 1 100 demoCrowded (channelWrite 1 100 [7] [] demoCrowded).state ∧
      ¬ WriteUndone 1 100 demoCrowded (channelWrite 1 100 [7] [5] demoCrowded).state := by
  have free : ∀ i, demoCrowded.stashed 1 i = none := by
    intro i
    rw [stashed, demoCrowded_thread]
    rcases i with _ | _ | i <;> rfl
  have spares : demoCrowded.SparesPair 1 100 :=
    ⟨fun i r rights stash => by simp [free i] at stash,
      fun c q _ _ i r rights stash => by simp [free i] at stash⟩
  obtain ⟨counter, here, there⟩ := demoCrowded_computed.2.2.2
  have lives : demoCrowded.ReceiverLives 100 := by
    intro c q d r d' hc peer hd pop
    rw [there] at hc
    cases hc
    cases peer
    rw [here] at hd
    cases hd
    cases pop
  have harmless : demoCrowded.Harmless 1 100 [] := Or.inr ⟨lives, fun _ _ h mem => by cases mem⟩
  refine ⟨(failed_write_undone_iff (demoCrowded_refuses (Or.inl rfl))).1 spares harmless, ?_⟩
  intro undone
  have fresh : demoCrowded.DrawsFresh 1 := by
    intro tab own j few s mem
    rw [demoCrowded_table.1] at own
    cases own
    rw [demoCrowded_table.2, List.mem_singleton] at mem
    rw [mem, counter]
    interval_cases j <;> decide
  have slots : ∀ t, demoCrowded.thread? 1 = some t → 0 < t.ipcTransferSlots.length := by
    intro t ht
    rw [demoCrowded_thread] at ht
    cases ht
    decide
  rcases (failed_write_undone_iff (demoCrowded_refuses (Or.inr rfl))).2 fresh slots undone with
    early | ⟨_, nothing⟩
  · rcases early with gone | ⟨c, hc, why⟩
    · rw [demoCrowded_thread] at gone
      cases gone
    · rw [there] at hc
      cases hc
      rcases why with closed | single
      · cases closed
      · cases single
  · have absent := nothing 1 demoCrowded_table.1 5 (by decide)
    rw [Slots.find?_eq, demoCrowded_table.2] at absent
    cases absent

/-- The refused write has moved a handle: the table has it under the value 1000, and 5 is gone. -/
theorem crowded_write_renames_handle :
    ∃ k, channelWrite 1 100 [7] [5] demoCrowded = .err .noMemory k ∧
      (demoCrowded.tables 1).occupants = [⟨5, 3, .port 9⟩] ∧
      (k.tables 1).occupants = [⟨1000, 3, .port 9⟩] ∧ ¬ WriteUndone 1 100 demoCrowded k := by
  have after : ((channelWrite 1 100 [7] [5] demoCrowded).state.tables 1).occupants =
      [⟨1000, 3, .port 9⟩] := demoCrowded_computed.1.2.2
  refine ⟨_, demoCrowded_refuses (Or.inr rfl), demoCrowded_table.2, after, fun undone => ?_⟩
  have perm := undone.handles 1 demoCrowded_table.1
  rw [after, demoCrowded_table.2] at perm
  have same := List.singleton_perm_singleton.mp perm
  cases same

end Kernel

end CapsuleOS
