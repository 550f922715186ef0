import CapsuleOS.Ipc.Custody
import CapsuleOS.Ipc.Peers

/-!
# Peer links in every run

Writes that wait, the creation of a pair, and the run theorem: in every run in which each creation
finds two free cells and two unused handle values, and no write that has to wait has the peer of its
own endpoint among the handles it drops first, the links stay symmetric.
-/
namespace CapsuleOS

open Lib

namespace Kernel

variable {k k' : Kernel} {p q : Nat} {c d : Channel}

/-! ## A write that waits -/

/-- A dead pointer stays dead. -/
def StaysDead (p : Nat) (k k' : Kernel) : Prop := k.chans p = none → k'.chans p = none

instance (p : Nat) : Std.Refl (StaysDead p) := ⟨fun _ => id⟩

instance (p : Nat) : IsTrans Kernel (StaysDead p) := ⟨fun _ _ _ h h' => h' ∘ h⟩

theorem staysDead_setChan {r : Nat} {c' : Option Channel} (live : k.chans r ≠ none ∨ c' = none) :
    StaysDead p k (k.setChan r c') := by
  intro dead
  rw [setChan_chans]
  split_ifs with eq
  · subst eq
    exact live.resolve_left fun h => h dead
  · exact dead

theorem staysDead_close (r : Nat) : Prog.Within (StaysDead p) (closeChannel r) := by
  have shut : ∀ (k : Kernel) (r : Nat) (c : Channel), k.chans r = some c →
      StaysDead p k ((k.setChan r (some c.shut)).wakeAll c.waiters) := by
    intro k r c hc dead
    rw [wakeAll_chans]
    exact staysDead_setChan (Or.inl (by simp [hc])) dead
  intro k
  cases hc : k.chans r with
  | none =>
    have stuck : closeChannel r k = .fault k := by simp [closeChannel, deref, hc]
    rw [stuck]
    exact Std.Refl.refl k
  | some c =>
    simp only [closeChannel, Prog.bind_apply, deref, hc, shutEndpoint, Prog.modify_apply]
    cases c.peer with
    | none => exact shut k r c hc
    | some q =>
      simp only [Prog.bind_apply, deref]
      cases hq : ((k.setChan r (some c.shut)).wakeAll c.waiters).chans q with
      | none => exact shut k r c hc
      | some d => exact IsTrans.trans _ _ _ (shut k r c hc) (shut _ q d hq)

theorem staysDead_handles (p : Nat) : HandleFrame (StaysDead p) where
  counter _ _ := id
  table _ _ _ := id
  mm _ _ := id
  drop := within_drop staysDead_close fun _ _ => staysDead_setChan (Or.inr rfl)

/-- The stash of the thread does not hold the endpoint `q`. -/
def StashApart (k : Kernel) (cur q : Nat) : Prop := ∀ i r, k.stashed cur i ≠ some (.channel q, r)

theorem StashApart.setStash {cur : Nat} (h : k.StashApart cur q) (i : Nat) :
    (setStash cur i none k).StashApart cur q := by
  intro j r stash
  have eq := congrFun (held_setStash (k := k) (o := none) cur i (Or.inl rfl)) (.stash cur j)
  rw [held, stash] at eq
  by_cases same : j = i
  · subst same
    rw [Function.update_self] at eq
    cases eq
  · rw [Function.update_of_ne (by simpa using same)] at eq
    exact h j r eq.symm

theorem StashApart.of_untouched {cur : Nat} (h : k.StashApart cur q) (still : Untouched k k') :
    k'.StashApart cur q := by
  intro i r stash
  exact h i r ((stashed_of_slots (still.slots cur) i).symm.trans stash)

/-- Emptying the stash leaves the endpoint as it is, unless it releases it. -/
theorem clearStash_stays {cur self : Nat} {cells : List Nat} (h : k.Paired)
    (hc : k.chans self = some c) (peer : c.peer = some q) (apart : k.StashApart cur q)
    (ran : clearStash cur cells k = .ok () k') :
    k'.chans self = none ∨ k'.chans self = some c := by
  induction cells generalizing k with
  | nil =>
    cases ran
    exact Or.inr hc
  | cons i cells ih =>
    rw [clearStash, Prog.bind_ok (Prog.get_apply k)] at ran
    cases stash : k.stashed cur i with
    | none =>
      simp only [stash] at ran
      exact ih h hc apart ran
    | some x =>
      obtain ⟨obj, r⟩ := x
      simp only [stash] at ran
      obtain ⟨_, k₁, emptied, ran₁⟩ := Prog.bind_eq_ok ran
      cases emptied
      obtain ⟨_, k₂, dropped, rest⟩ := Prog.bind_eq_ok ran₁
      have h₁ : (setStash cur i none k).Paired := keeps_of_chans rfl h
      have h₂ : k₂.Paired := by
        have kept := keeps_handles.dropObject obj (setStash cur i none k) h₁
        rwa [dropped] at kept
      by_cases own : obj = .channel self
      · -- the endpoint itself is released
        subst own
        obtain ⟨_, k₃, _, freed⟩ := Prog.bind_eq_ok dropped
        cases freed
        have gone : (k₃.setChan self none).chans self = none := setChan_chans_same k₃ self none
        have within : Prog.Within (StaysDead self) (clearStash cur cells) :=
          (staysDead_handles self).calls.clearStash (fun _ _ _ => id) cells
        have dead := within (k₃.setChan self none) gone
        rw [show clearStash cur cells (k₃.setChan self none) = .ok () k' from rest] at dead
        exact Or.inl dead
      · have kept : k₂.chans self = k.chans self := by
          refine ChannelOp.dropObject_chans (Or.inl ⟨(), dropped⟩) fun r' c' eq hc' => ?_
          refine ⟨fun same => own (same ▸ eq), fun back => ?_⟩
          obtain ⟨_, _, e, he, link, _⟩ := h₁.linked hc' back
          have same : some e = some c := he.symm.trans hc
          cases same
          rw [peer] at link
          cases link
          exact apart i r (eq ▸ stash)
        have still := untouched_dropObject obj (setStash cur i none k)
        rw [dropped] at still
        exact ih h₂ (kept.trans hc) ((apart.setStash i).of_untouched still) rest

/-- No endpoint is touched. -/
def SameChans (k k' : Kernel) : Prop := k'.chans = k.chans

instance : Std.Refl SameChans := ⟨fun _ => rfl⟩

instance : IsTrans Kernel SameChans := ⟨fun _ _ _ h h' => h'.trans h⟩

/-- Only VMOs can be duplicated, so that a failed duplicate drops no endpoint. -/
theorem sameChans_takeHandle (tab h : Nat) : Prog.Within SameChans (takeHandle tab h) := by
  have dropVmo : ∀ v, Prog.Within SameChans (dropObject (.vmo v)) := by
    intro v k
    change SameChans k (onMm v.drop k).state
    unfold onMm Prog.zoom
    split <;> exact Std.Refl.refl _
  have putVmo : ∀ s : HandleSlot, ∀ v, s.object = .vmo v → Prog.Within SameChans (putSlot tab s) := by
    intro s v eq k
    unfold putSlot
    split
    · exact Std.Refl.refl _
    · rw [eq]
      exact ((dropVmo v).bind fun _ => .throw _) k
  have duplicate : Prog.Within SameChans (duplicateHandle tab h 0) := by
    refine (within_findSlot tab h 0).bind fun s => ?_
    cases dup : duplicateObject s.object with
    | error e => exact .throw e
    | ok o =>
      obtain ⟨v, rfl⟩ : ∃ v, o = .vmo v := by
        cases ho : s.object <;> simp [ho, duplicateObject] at dup
        exact ⟨_, dup.symm⟩
      have next : Prog.Within SameChans nextHandleValue := fun _ => rfl
      exact next.bind fun hv => (putVmo ⟨hv, s.rights, .vmo v⟩ v rfl).bind fun _ => .pure hv
  have remove : ∀ hv, Prog.Within SameChans (removeWithRights tab hv) := by
    intro hv k
    unfold removeWithRights
    split <;> exact Std.Refl.refl _
  refine duplicate.attempt.bind fun r => (remove _).attempt.bind fun r => ?_
  cases r with
  | ok o => exact .pure _
  | error e => exact .pure _

theorem sameChans_stashHandles (tab cur : Nat) (hs : List Nat) (hIdx : Nat) :
    Prog.Within SameChans (stashHandles tab cur hs hIdx) := by
  induction hs generalizing hIdx with
  | nil => exact .pure ()
  | cons h hs ih =>
    refine (sameChans_takeHandle tab h).bind fun r => ?_
    cases r with
    | none => exact ih hIdx
    | some o => exact (Prog.Within.modify (by intro; rfl)).bind fun _ => ih (hIdx + 1)

theorem stashMessage_stays {cur self : Nat} {hs : List Nat} {tab : Option Nat} (h : k.Paired)
    (hc : k.chans self = some c) (peer : c.peer = some q) (apart : k.StashApart cur q)
    (ran : stashMessage cur hs k = .ok tab k') :
    k'.chans self = none ∨ k'.chans self = some c := by
  obtain ⟨_, k₁, cleared, ran₁⟩ := Prog.bind_eq_ok ran
  have stays := clearStash_stays h hc peer apart cleared
  obtain ⟨t, k₂, own, ran₂⟩ := Prog.bind_eq_ok ran₁
  have unchanged : k₂.chans = k₁.chans := by
    have within := (within_currentThread (R := SameChans) cur) k₁
    rwa [own] at within
  have kept : k'.chans = k₂.chans := by
    cases table : t.handleTable with
    | none =>
      rw [table] at ran₂
      cases ran₂
      rfl
    | some tab' =>
      rw [table] at ran₂
      obtain ⟨_, k₃, stashed, last⟩ := Prog.bind_eq_ok (m := stashHandles tab' cur (hs.take 2) 0) ran₂
      cases last
      have within := sameChans_stashHandles tab' cur (hs.take 2) 0 k₂
      rwa [stashed] at within
  rw [kept, unchanged]
  exact stays

theorem waitSender_paired {cur self : Nat} {data : List UInt8} {hs : List Nat} (h : k.Paired)
    (hc : k.chans self = some c) (peer : c.peer = some q) (apart : k.StashApart cur q) :
    (waitSender cur self data hs k).state.Paired := by
  set k₁ := k.modifyThread cur (·.block data) with hk₁
  have h₁ : k₁.Paired := keeps_of_chans rfl h
  have apart₁ : k₁.StashApart cur q :=
    apart.of_untouched (.of_modify k cur (by intro; rfl) (by intro; rfl))
  have within : Prog.Within Keeps (stashMessage cur hs) :=
    keeps_handles.calls.stashMessage (fun _ _ _ => keeps_of_chans rfl) hs
  have kept := within k₁ h₁
  rw [waitSender, Prog.bind_ok (Prog.modify_apply _ k), Prog.bind_apply]
  cases ran : stashMessage cur hs k₁ with
  | err e k₂ => rwa [ran] at kept
  | fault k₂ => rwa [ran] at kept
  | ok tab k₂ =>
    rw [ran] at kept
    rcases stashMessage_stays h₁ hc peer apart₁ ran with dead | live
    · simpa [Prog.bind_apply, deref, dead] using kept
    · cases push : c.pushSender cur with
      | none =>
        have given : (abandonWrite cur tab k₂).state.Paired := by
          refine ((keeps_handles.calls.restoreMessage (fun _ _ _ => keeps_of_chans rfl) tab).bind
            fun _ => ?_) k₂ kept
          exact (keeps_modify (by intro; rfl)).bind fun _ => .throw _
        simpa [Prog.bind_apply, deref, live, push] using given
      | some c' =>
        have joined : (enqueue cur self c' (.write self) k₂).Paired :=
          kept.enqueue live (by simp [peer]) (show Side.send.push c cur = some c' from push)
        simpa [Prog.bind_apply, deref, live, push] using joined

theorem write_paired {cur self : Nat} {data : List UInt8} {hs : List Nat} (h : k.Paired)
    (apart : ∀ c q, k.served .recv self = none → k.chans self = some c → c.peer = some q →
      k.StashApart cur q) : (channelWrite cur self data hs k).state.Paired := by
  refine meet_paired h (fun w => keeps_sendTo w) fun k' c q paired threads nobody hc hc' peer => ?_
  refine waitSender_paired paired hc' peer fun i r stash => ?_
  rw [stashed, threads] at stash
  exact apart c q nobody hc peer i r stash

/-! ## Creating a pair -/

/-- The table has room for two handles, and their values are not in use there. -/
def RoomForPair (k : Kernel) (tab : Nat) : Prop :=
  (k.tables tab).occupants.length + 2 ≤ maxHandles ∧ ∀ s ∈ (k.tables tab).occupants,
    s.value ≠ k.handleValueCounter ∧ s.value ≠ (k.handleValueCounter + 1) % 2 ^ 32

theorem find?_unique {t : HandleTable} {s : HandleSlot} (mem : s ∈ t.occupants)
    (unique : ∀ s' ∈ t.occupants, s'.value = s.value → s' = s) :
    t.find? (·.value == s.value) = some s := by
  rw [Slots.find?_eq]
  cases found : t.occupants.find? (·.value == s.value) with
  | none => simpa using List.find?_eq_none.mp found s mem
  | some s' =>
    have val : s'.value = s.value := by simpa using List.find?_some found
    rw [unique s' (List.mem_of_find?_eq_some found) val]

theorem withChannel_ok {tab h p : Nat} {s : HandleSlot}
    (find : (k.tables tab).find? (·.value == h) = some s) (object : s.object = .channel p)
    (rights : s.rights = channelRights) : withChannel tab h channelRights k = .ok p k := by
  have check : checkRights channelRights channelRights = true := by decide
  simp [withChannel, findSlot, Prog.bind_apply, find, object, rights, check]

theorem setPeer_ok {tab h p q : Nat} {s : HandleSlot}
    (find : (k.tables tab).find? (·.value == h) = some s) (object : s.object = .channel p)
    (rights : s.rights = channelRights) (hc : k.chans p = some c) :
    setPeer tab h q k = .ok () (k.setChan p (some { c with peer := some q })) := by
  rw [setPeer, Prog.bind_ok (withChannel_ok find object rights),
    Prog.bind_ok (show deref p k = .ok c k by simp [deref, hc])]
  rfl

/-- Two entries with new values, put one after the other, are found under their values. -/
theorem find?_pair {t t₁ t₂ : HandleTable} {s₀ s₁ : HandleSlot} (ins₀ : t.insert? s₀ = some t₁)
    (ins₁ : t₁.insert? s₁ = some t₂) (ne : s₀.value ≠ s₁.value)
    (unused : ∀ s ∈ t.occupants, s.value ≠ s₀.value ∧ s.value ≠ s₁.value) :
    t₂.find? (·.value == s₀.value) = some s₀ ∧ t₂.find? (·.value == s₁.value) = some s₁ := by
  have members : ∀ s, s ∈ t₂.occupants ↔ s = s₁ ∨ s = s₀ ∨ s ∈ t.occupants := by
    intro s
    rw [(Slots.insert?_perm ins₁).mem_iff, List.mem_cons, (Slots.insert?_perm ins₀).mem_iff,
      List.mem_cons]
  constructor
  · refine find?_unique ((members s₀).mpr (Or.inr (Or.inl rfl))) fun s mem val => ?_
    rcases (members s).mp mem with rfl | rfl | old
    · exact absurd val.symm ne
    · rfl
    · exact absurd val (unused s old).1
  · refine find?_unique ((members s₁).mpr (Or.inl rfl)) fun s mem val => ?_
    rcases (members s).mp mem with rfl | rfl | old
    · rfl
    · exact absurd val ne
    · exact absurd val (unused s old).2

/-- The table has entries for the two endpoints of a new pair. -/
structure NewEntries (tab a₀ a₁ : Nat) (k k' : Kernel) : Prop where
  table : ∃ s₀ s₁ : HandleSlot, s₀.object = .channel a₀ ∧ s₁.object = .channel a₁ ∧
    (k'.tables tab).occupants.Perm (s₁ :: s₀ :: (k.tables tab).occupants)
  others : ∀ tab', tab' ≠ tab → k'.tables tab' = k.tables tab'
  registry : k'.registry = k.registry

/-- A new pair, linked. -/
theorem createPair_ok {tab a₀ a₁ : Nat} (room : k.RoomForPair tab) (ne : a₀ ≠ a₁) :
    ∃ h k' c₀ c₁, createPair tab a₀ a₁ k = .ok h k' ∧ k'.thread? = k.thread? ∧
      NewEntries tab a₀ a₁ k k' ∧ c₀.peer = some a₁ ∧ c₀.state = .opened ∧
      c₁.peer = some a₀ ∧ c₁.state = .opened ∧
      ∀ r, k'.chans r = if r = a₁ then some c₁ else if r = a₀ then some c₀ else k.chans r := by
  obtain ⟨space, unused⟩ := room
  set n := k.handleValueCounter with hn
  set k₀ : Kernel := { k with channelIdCounter := (k.channelIdCounter + 1) % 2 ^ 32 } with hk₀
  set k₁ : Kernel := { k₀ with channelIdCounter := (k₀.channelIdCounter + 1) % 2 ^ 32 } with hk₁
  set c₀ := Channel.fresh k.channelIdCounter
  set c₁ := Channel.fresh k₀.channelIdCounter
  obtain ⟨t₁, ins₀, ran₀⟩ := addHandle_room (k := k₁.setChan a₀ (some c₀)) tab (.channel a₀)
    channelRights (show (k.tables tab).occupants.length < maxHandles by omega)
  set k₂ := ((k₁.setChan a₀ (some c₀)).bumpHandleValue.setTable tab t₁) with hk₂
  have table₂ : (k₂.setChan a₁ (some c₁)).tables tab = t₁ := setTable_tables_same _ tab t₁
  have count := (Slots.insert?_perm ins₀).length_eq
  obtain ⟨t₂, ins₁, ran₁⟩ := addHandle_room (k := k₂.setChan a₁ (some c₁)) tab (.channel a₁)
    channelRights (by
      rw [table₂, count]
      exact Nat.lt_of_lt_of_le (Nat.lt_succ_self _) space)
  rw [table₂] at ins₁
  set k₃ := ((k₂.setChan a₁ (some c₁)).bumpHandleValue.setTable tab t₂) with hk₃
  have table₃ : k₃.tables tab = t₂ := setTable_tables_same _ tab t₂
  obtain ⟨find₀, find₁⟩ := find?_pair ins₀ ins₁ (show n ≠ (n + 1) % 2 ^ 32 by omega) unused
  have live₀ : k₃.chans a₀ = some c₀ := by
    simp [hk₃, hk₂, bumpHandleValue, setChan_chans, ne]
  set k₄ := k₃.setChan a₀ (some { c₀ with peer := some a₁ }) with hk₄
  have live₁ : k₄.chans a₁ = some c₁ := by
    simp [hk₄, hk₃, bumpHandleValue, setChan_chans, Ne.symm ne]
  have ran₂ : setPeer tab n a₁ k₃ = .ok () k₄ :=
    setPeer_ok (table₃.symm ▸ find₀) rfl rfl live₀
  have ran₃ : setPeer tab ((n + 1) % 2 ^ 32) a₀ k₄ =
      .ok () (k₄.setChan a₁ (some { c₁ with peer := some a₀ })) :=
    setPeer_ok (show (k₄.tables tab).find? _ = _ from table₃.symm ▸ find₁) rfl rfl live₁
  refine ⟨(n, (n + 1) % 2 ^ 32), k₄.setChan a₁ (some { c₁ with peer := some a₀ }),
    { c₀ with peer := some a₁ }, { c₁ with peer := some a₀ }, ?_, rfl,
    ⟨⟨⟨n, channelRights, .channel a₀⟩, ⟨(n + 1) % 2 ^ 32, channelRights, .channel a₁⟩, rfl, rfl, ?_⟩,
      fun tab' other => ?_, rfl⟩, rfl, rfl, rfl, rfl, fun r => ?_⟩
  · rw [createPair, Prog.bind_ok (show newChannel k = .ok c₀ k₀ from rfl),
      Prog.bind_ok (show newChannel k₀ = .ok c₁ k₁ from rfl),
      Prog.bind_ok (show addChannel tab a₀ c₀ k₁ = .ok n k₂ from ran₀),
      Prog.bind_ok (show addChannel tab a₁ c₁ k₂ = .ok ((n + 1) % 2 ^ 32) k₃ from ran₁),
      Prog.bind_ok (withChannel_ok (table₃.symm ▸ find₀) rfl rfl),
      Prog.bind_ok (withChannel_ok (table₃.symm ▸ find₁) rfl rfl),
      Prog.bind_ok ran₂, Prog.bind_ok ran₃]
    rfl
  · change (k₃.tables tab).occupants.Perm _
    rw [table₃]
    exact (Slots.insert?_perm ins₁).trans ((Slots.insert?_perm ins₀).cons _)
  · change k₃.tables tab' = _
    rw [hk₃, setTable_tables_ne _ _ other]
    exact setTable_tables_ne _ _ other
  · rw [setChan_chans]
    by_cases one : r = a₁
    · simp [one]
    · by_cases zero : r = a₀
      · simp [zero, hk₄, ne]
      · simp [one, zero, hk₄, hk₃, hk₂, hk₁, hk₀, bumpHandleValue, setChan_chans]

/-- The addresses of a new pair belong to no live endpoint. -/
def Unused (k : Kernel) (a₀ a₁ : Nat) : Prop := a₀ ≠ a₁ ∧ k.chans a₀ = none ∧ k.chans a₁ = none

theorem Paired.create {tab a₀ a₁ : Nat} {h : Nat × Nat} (paired : k.Paired)
    (room : k.RoomForPair tab) (unused : k.Unused a₀ a₁)
    (ran : createPair tab a₀ a₁ k = .ok h k') : k'.Paired := by
  obtain ⟨ne, dead₀, dead₁⟩ := unused
  obtain ⟨_, k₁, c₀, c₁, ran₁, _, _, peer₀, open₀, peer₁, open₁, chans⟩ := createPair_ok room ne
  rw [ran] at ran₁
  cases ran₁
  have at₀ : k'.chans a₀ = some c₀ := by rw [chans, if_neg ne, if_pos rfl]
  have at₁ : k'.chans a₁ = some c₁ := by rw [chans, if_pos rfl]
  intro r c hc
  unfold EndpointOk
  by_cases one : r = a₁
  · subst one
    rw [at₁] at hc
    cases hc
    rw [peer₁]
    exact ⟨ne, open₁, c₀, at₀, peer₀, open₀⟩
  · by_cases zero : r = a₀
    · subst zero
      rw [at₀] at hc
      cases hc
      rw [peer₀]
      exact ⟨Ne.symm ne, open₀, c₁, at₁, peer₁, open₁⟩
    · rw [chans, if_neg one, if_neg zero] at hc
      cases peer : c.peer with
      | none => exact paired.unlinked hc peer
      | some q =>
        obtain ⟨far, open_, d, hd, back, open'⟩ := paired.linked hc peer
        have ne₁ : q ≠ a₁ := by
          rintro rfl
          rw [dead₁] at hd
          cases hd
        have ne₀ : q ≠ a₀ := by
          rintro rfl
          rw [dead₀] at hd
          cases hd
        exact ⟨far, open_, d, by rw [chans, if_neg ne₁, if_neg ne₀, hd], back, open'⟩

end Kernel

/-! ## The machine -/

/-- Everything that creates, moves, links or closes endpoints. -/
inductive PeerOp where
  | channel (op : ChannelOp)
  | close (ptr : Nat)
  | create (tab a₀ a₁ : Nat)
  | register (tab : Nat) (name : List UInt8) (hv : Nat)
  | lookup (cur tab : Nat) (name : List UInt8) (a₀ a₁ : Nat)

namespace PeerOp

open Kernel

def exec : PeerOp → KernelM Unit
  | .channel op => do let _ ← op.exec
  | .close ptr => closeChannel ptr
  | .create tab a₀ a₁ => do let _ ← sysChannelCreate tab a₀ a₁
  | .register tab name hv => sysChannelRegister tab name hv
  | .lookup cur tab name a₀ a₁ => do let _ ← sysChannelLookup cur tab name a₀ a₁

/-- The heap hands out blocks that are not in use. -/
def Allocates (k : Kernel) : PeerOp → Prop
  | .create _ a₀ a₁ => k.Unused a₀ a₁
  | .lookup _ _ _ a₀ a₁ => k.Unused a₀ a₁
  | _ => True

/-- The operation returns, with or without an error. -/
def Steps (op : PeerOp) (k k' : Kernel) : Prop :=
  op.Allocates k ∧ (op.exec k = .ok () k' ∨ ∃ e, op.exec k = .err e k')

/-- The registered endpoint that a lookup will find. -/
def service (k : Kernel) (name : List UInt8) : Option Nat :=
  match lookupService (name.take serviceNameMax) k with
  | .ok ptr _ => some ptr
  | _ => none

/-- Pairs get two cells under unused values, and no write that has to wait drops the peer of its own
endpoint from the stash before it joins the line. -/
def Orderly (k : Kernel) : PeerOp → Prop
  | .channel (.write cur self _ _) => ∀ c q, k.served .recv self = none → k.chans self = some c →
      c.peer = some q → k.StashApart cur q
  | .create tab _ _ => k.RoomForPair tab
  | .lookup cur tab name _ _ => ∀ ptr, service k name = some ptr →
      k.RoomForPair tab ∧ k.StashApart cur ptr
  | _ => True

variable {k k' : Kernel} {op : PeerOp}

theorem state_ignore {α : Type} (m : KernelM α) (k : Kernel) :
    ((do let _ ← m : KernelM Unit) k).state = (m k).state := by
  rw [Prog.bind_apply]
  cases m k <;> rfl

theorem lookup_paired {cur tab a₀ a₁ : Nat} {name : List UInt8} (h : k.Paired)
    (unused : k.Unused a₀ a₁) (orderly : Orderly k (.lookup cur tab name a₀ a₁)) :
    (sysChannelLookup cur tab name a₀ a₁ k).state.Paired := by
  have looked : ∀ r, lookupService (name.take serviceNameMax) k = r → r.state = k := by
    rintro _ rfl
    unfold lookupService
    split
    · rfl
    · split <;> rfl
  rw [sysChannelLookup, Prog.bind_apply]
  cases found : lookupService (name.take serviceNameMax) k with
  | err e k₁ =>
    obtain rfl : k₁ = k := looked _ found
    exact h
  | fault k₁ =>
    obtain rfl : k₁ = k := looked _ found
    exact h
  | ok ptr k₁ =>
    obtain rfl : k₁ = k := looked _ found
    obtain ⟨room, apart⟩ := orderly ptr (by simp [service, found])
    obtain ⟨pair, k₂, c₀, c₁, ran, threads, _⟩ := createPair_ok room unused.1
    have h₂ := h.create room unused ran
    simp only [Prog.bind_ok ran]
    cases hs : k₂.chans ptr with
    | none =>
      rw [Prog.bind_fault (show deref ptr k₂ = .fault k₂ by simp [deref, hs])]
      exact h₂
    | some c =>
      rw [Prog.bind_ok (show deref ptr k₂ = .ok c k₂ by simp [deref, hs])]
      cases peer : c.peer with
      | none => exact h₂
      | some q =>
        have written : (channelWrite cur q [] [pair.2] k₂).state.Paired := by
          refine write_paired h₂ fun d r _ hd back i rights stash => ?_
          obtain ⟨_, _, e, he, link, _⟩ := h₂.linked hs peer
          rw [hd] at he
          cases he
          rw [back] at link
          cases link
          rw [stashed, threads] at stash
          exact apart i rights stash
        simp only [Prog.bind_apply]
        cases out : channelWrite cur q [] [pair.2] k₂ with
        | err e k₃ => rwa [out] at written
        | fault k₃ => rwa [out] at written
        | ok r k₃ =>
          rw [out] at written
          cases r <;> exact written

/-- Every orderly step keeps the links, even one that faults. -/
theorem exec_paired (h : k.Paired) (alloc : op.Allocates k) (orderly : Orderly k op) :
    (op.exec k).state.Paired := by
  cases op with
  | channel op =>
    rw [exec, state_ignore]
    cases op with
    | write cur self data hs =>
      rw [ChannelOp.exec, ChannelOp.state_map]
      exact write_paired h orderly
    | read cur self data hs =>
      rw [ChannelOp.exec, ChannelOp.state_map]
      exact read_paired h
    | readWithTimeout cur self data hs ms =>
      rw [ChannelOp.exec, ChannelOp.state_map]
      exact readWithTimeout_paired h
    | resume cur =>
      rw [ChannelOp.exec, ChannelOp.state_map]
      exact resume_paired h
    | close tab hv =>
      rw [ChannelOp.exec, ChannelOp.state_map]
      exact ((keeps_handles.removeWithRights tab hv).bind fun o => keeps_handles.dropObject o.1) k h
    | tick => exact keeps_of_chans rfl h
  | close ptr => exact keeps_close ptr k h
  | create tab a₀ a₁ =>
    rw [exec, state_ignore, sysChannelCreate]
    obtain ⟨pair, k', _, _, ran, _⟩ := createPair_ok orderly alloc.1
    rw [ran]
    exact h.create orderly alloc ran
  | register tab name hv =>
    have quiet : Prog.Within Keeps (sysChannelRegister tab name hv) := by
      refine Prog.Within.bind ?_ fun ptr => ?_
      · refine (within_findSlot tab hv _).bind fun s => ?_
        cases s.object <;> first | exact .pure _ | exact .throw _
      · intro k
        unfold registerService
        split
        · exact Std.Refl.refl k
        · split
          · exact Std.Refl.refl k
          · split
            · exact keeps_of_chans rfl
            · exact Std.Refl.refl k
    exact quiet k h
  | lookup cur tab name a₀ a₁ =>
    rw [exec, state_ignore]
    exact lookup_paired h alloc orderly

/-- Runs whose steps all satisfy `C`. -/
inductive Run (C : Kernel → PeerOp → Prop) (k : Kernel) : Kernel → Prop where
  | nil : Run C k k
  | step {k' k'' : Kernel} {op : PeerOp} (run : Run C k k') (cond : C k' op)
      (steps : op.Steps k' k'') : Run C k k''

end PeerOp

/-- In every run of orderly steps, from a machine whose endpoints are properly linked, every endpoint
with a peer is linked back by a live one, both open, and every other endpoint is closed, without a
peer and without waiters. -/
theorem peers_symmetric {k₀ k : Kernel} (start : k₀.Paired) (run : PeerOp.Run PeerOp.Orderly k₀ k) :
    k.Paired := by
  induction run with
  | nil => exact start
  | step _ cond steps ih =>
    have kept := PeerOp.exec_paired ih steps.1 cond
    rcases steps.2 with ran | ⟨e, ran⟩
    · rwa [ran] at kept
    · rwa [ran] at kept

namespace Kernel

theorem demo_paired (object : KernelObject) : (demo object).Paired := by
  intro p c hc
  have ends : p = 100 ∨ p = 200 := by
    simp only [demo] at hc
    split_ifs at hc with one two
    · exact Or.inl one
    · exact Or.inr two
  rcases ends with rfl | rfl
  · cases hc
    exact ⟨by decide, rfl, _, rfl, rfl, rfl⟩
  · cases hc
    exact ⟨by decide, rfl, _, rfl, rfl, rfl⟩

/-- The small machine with a second pair, and the endpoint 200 behind the handle 5. -/
def demoCross : Kernel :=
  ((demo (.channel 200)).setChan 300 (some { Channel.fresh 3 with peer := some 400 })).setChan 400
    (some { Channel.fresh 4 with peer := some 300 })

theorem demoCross_paired : demoCross.Paired := by
  intro p c hc
  have ends : p = 100 ∨ p = 200 ∨ p = 300 ∨ p = 400 := by
    simp only [demoCross, setChan_chans] at hc
    split_ifs at hc with four three
    · exact Or.inr (Or.inr (Or.inr four))
    · exact Or.inr (Or.inr (Or.inl three))
    · simp only [demo] at hc
      split_ifs at hc with one two
      · exact Or.inl one
      · exact Or.inr (Or.inl two)
  rcases ends with rfl | rfl | rfl | rfl
  · cases hc
    exact ⟨by decide, rfl, _, rfl, rfl, rfl⟩
  · cases hc
    exact ⟨by decide, rfl, _, rfl, rfl, rfl⟩
  · cases hc
    exact ⟨by decide, rfl, _, rfl, rfl, rfl⟩
  · cases hc
    exact ⟨by decide, rfl, _, rfl, rfl, rfl⟩

/-- The first thread sends the endpoint 200 and blocks, the pair it uses is closed, and it resumes
with the endpoint still in its stash. -/
def demoStranded : Kernel :=
  (PeerOp.exec (.channel (.resume 1)) (PeerOp.exec (.close 400)
    (PeerOp.exec (.channel (.write 1 300 [] [5])) demoCross).state).state).state

/-- Then it writes on the endpoint 100. -/
def demoQueued : Kernel := (PeerOp.exec (.channel (.write 1 100 [] [])) demoStranded).state

theorem demoQueued_run : PeerOp.Run (fun _ _ => True) demoCross demoQueued := by
  have sent : (PeerOp.channel (.write 1 300 [] [5])).Steps demoCross _ := ⟨trivial, Or.inl rfl⟩
  have closed : (PeerOp.close 400).Steps
      (PeerOp.exec (.channel (.write 1 300 [] [5])) demoCross).state _ := ⟨trivial, Or.inl rfl⟩
  have resumed : (PeerOp.channel (.resume 1)).Steps (PeerOp.exec (.close 400)
      (PeerOp.exec (.channel (.write 1 300 [] [5])) demoCross).state).state demoStranded :=
    ⟨trivial, Or.inl rfl⟩
  have queued : (PeerOp.channel (.write 1 100 [] [])).Steps demoStranded demoQueued :=
    ⟨trivial, Or.inl rfl⟩
  exact (((PeerOp.Run.nil.step trivial sent).step trivial closed).step trivial resumed).step trivial
    queued

end Kernel

/-- A new pair on the small machine. -/
theorem peers_symmetric_demo :
    (PeerOp.exec (.create 2 300 400) (Kernel.demo (.port 9))).state.Paired := by
  have unused : (Kernel.demo (.port 9)).Unused 300 400 := ⟨by decide, rfl, rfl⟩
  have room : PeerOp.Orderly (Kernel.demo (.port 9)) (.create 2 300 400) := ⟨by decide, by decide⟩
  have created : (PeerOp.create 2 300 400).Steps (Kernel.demo (.port 9)) _ := ⟨unused, Or.inl rfl⟩
  exact peers_symmetric (Kernel.demo_paired _) (PeerOp.Run.nil.step room created)

/-- The small machine with one free cell in the second table. -/
def Kernel.demoTight : Kernel :=
  (demo (.port 9)).setTable 2 ⟨none :: List.replicate 11 (some ⟨0, 3, .port 8⟩), rfl⟩

open Kernel in
/-- On the larger machine a thread queues on an endpoint whose peer it has just dropped; and the
creation of a pair in a table with one free cell leaves an open endpoint without a peer. -/
theorem closed_endpoint_with_waiter :
    (demoCross.Paired ∧ PeerOp.Run (fun _ _ => True) demoCross demoQueued ∧
      ∃ c, demoQueued.chans 100 = some c ∧ c.state = .closed ∧ c.peer = none ∧ c.waiters = [1] ∧
        demoQueued.chans 200 = none ∧ ¬ demoQueued.Paired) ∧
    ∃ k, demoTight.Paired ∧ PeerOp.Run (fun _ _ => True) demoTight k ∧
      ∃ c, k.chans 300 = some c ∧ c.state = .opened ∧ c.peer = none ∧ k.chans 400 = none ∧
        ¬ k.Paired := by
  constructor
  · refine ⟨demoCross_paired, demoQueued_run, _, rfl, rfl, rfl, by decide, rfl, fun h => ?_⟩
    have quiet := (h.unlinked (p := 100) rfl rfl).2
    exact absurd quiet (by decide)
  · have unused : demoTight.Unused 300 400 := ⟨by decide, rfl, rfl⟩
    have failed : (PeerOp.create 2 300 400).Steps demoTight _ := ⟨unused, Or.inr ⟨.noMemory, rfl⟩⟩
    refine ⟨_, keeps_of_chans (k := demo (.port 9)) rfl (demo_paired _),
      PeerOp.Run.nil.step trivial failed, _, rfl, rfl, rfl, rfl, fun h => ?_⟩
    have closed := (h.unlinked (p := 300) rfl rfl).1
    cases closed

end CapsuleOS
