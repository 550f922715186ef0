import CapsuleOS.Ipc.CustodySteps
import CapsuleOS.Ipc.PeersRun

/-!
# What keeps an endpoint open

An endpoint is closed when its box or the box of its peer is dropped. For a set `P` of endpoints and
their peers, the lemmas here say of each routine that it leaves these endpoints open as long as nothing
it may drop is one of them or one of their peers. Objects are dropped where a table has no room for them,
and where a write finds something in the stash of its thread.
-/
namespace CapsuleOS

open Lib

namespace Kernel

/-- Peers and states of the live endpoints. -/
def links (k : Kernel) (p : Nat) : Option (Option Nat × ChannelState) :=
  (k.chans p).map fun c => (c.peer, c.state)

/-- The peer of an endpoint is another one, whose peer it is. -/
def Mutual (k : Kernel) : Prop := ∀ p q s, k.links p = some (some q, s) →
  q ≠ p ∧ ∃ s', k.links q = some (some p, s')

/-- The endpoints in `P` are open and have the peers that `P` gives them. -/
structure Sheltered (P : Nat → Option Nat → Prop) (k : Kernel) : Prop where
  links : k.Mutual
  opened : ∀ p o, P p o → k.links p = some (o, .opened)

/-- The object is no endpoint in `P` and no peer of one. -/
def Foreign (P : Nat → Option Nat → Prop) (object : KernelObject) : Prop :=
  ∀ p o, P p o → ∀ r, object = .channel r → r ≠ p ∧ o ≠ some r

variable {k k' : Kernel} {P : Nat → Option Nat → Prop} {p : Nat}

theorem links_of_chans (same : k'.chans = k.chans) : k'.links = k.links := by
  funext q
  rw [links, links, same]

theorem links_some {c : Channel} (hc : k.chans p = some c) : k.links p = some (c.peer, c.state) := by
  rw [links, hc, Option.map_some]

theorem links_none (dead : k.chans p = none) : k.links p = none := by rw [links, dead, Option.map_none]

theorem links_setChan (q : Nat) (c : Option Channel) (r : Nat) :
    (k.setChan q c).links r = if r = q then c.map fun c => (c.peer, c.state) else k.links r := by
  rw [links, setChan_chans]
  split_ifs <;> rfl

/-- An endpoint changes its waiting lines. -/
theorem links_requeue {q : Nat} {c c' : Channel} (hc : k.chans q = some c) (peer : c'.peer = c.peer)
    (state : c'.state = c.state) : (k.setChan q (some c')).links = k.links := by
  funext r
  rw [links_setChan]
  split_ifs with eq
  · rw [eq, links_some hc, Option.map_some, peer, state]
  · rfl

theorem Sheltered.of_links (h : Sheltered P k) (same : k'.links = k.links) : Sheltered P k' where
  links := by
    unfold Mutual
    rw [same]
    exact h.links
  opened := by
    rw [same]
    exact h.opened

theorem Sheltered.of_chans (h : Sheltered P k) (same : k'.chans = k.chans) : Sheltered P k' :=
  h.of_links (links_of_chans same)

/-! ## Dropping an object -/

theorem closeChannel_links {r : Nat} {c : Channel} (h : k.Mutual) (hc : k.chans r = some c) :
    ∃ k', closeChannel r k = .ok () k' ∧ k'.registry = k.registry ∧
      ∀ x, k'.links x = if x = r ∨ c.peer = some x then some (none, .closed) else k.links x := by
  have woken (k : Kernel) (tids : List Nat) : (k.wakeAll tids).registry = k.registry := by
    obtain ⟨_, _, eq⟩ := k.wakeAll_eq tids
    rw [eq]
  have shut (c : Channel) : (c.shut.peer, c.shut.state) = (none, ChannelState.closed) := rfl
  cases peer : c.peer with
  | none =>
    refine ⟨_, by simp [closeChannel, Prog.bind_apply, deref, hc, shutEndpoint, peer]; rfl, ?_, fun x => ?_⟩
    · exact woken _ _
    · rw [links_of_chans (wakeAll_chans _ _), links_setChan]
      simp [shut]
  | some q =>
    obtain ⟨ne, _, live⟩ := h r q c.state (by rw [links_some hc, peer])
    obtain ⟨d, hd, -⟩ := Option.map_eq_some_iff.mp live
    refine ⟨_, by simp [closeChannel, Prog.bind_apply, deref, hc, shutEndpoint, peer,
      setChan_chans_ne _ ne, hd]; rfl, ?_, fun x => ?_⟩
    · exact (woken _ _).trans (woken _ _)
    · rw [links_of_chans (wakeAll_chans _ _), links_setChan, links_of_chans (wakeAll_chans _ _),
        links_setChan]
      by_cases at_q : x = q
      · simp [at_q, shut]
      · by_cases at_r : x = r
        · simp [at_r, Ne.symm ne, shut]
        · simp [at_q, at_r, Ne.symm at_q]

theorem onMm_chans {α : Type} (m : MmM α) (k : Kernel) :
    (onMm m k).state.chans = k.chans ∧ (onMm m k).state.registry = k.registry := by
  unfold onMm Prog.zoom
  split <;> exact ⟨rfl, rfl⟩

/-- Closing a channel leaves the other pairs alone. -/
theorem Sheltered.close (h : Sheltered P k) {r : Nat} (foreign : Foreign P (.channel r)) :
    Sheltered P (closeChannel r k).state := by
  cases hc : k.chans r with
  | none =>
    have stuck : closeChannel r k = .fault k := by simp [closeChannel, deref, hc]
    rwa [stuck]
  | some c =>
    obtain ⟨k', ran, -, closed⟩ := closeChannel_links h.links hc
    have linked : k.links r = some (c.peer, c.state) := links_some hc
    rw [ran, Outcome.state_ok]
    refine ⟨fun x y s link => ?_, ?_⟩
    · rw [closed] at link
      split_ifs at link with shut
      · cases link
      · obtain ⟨far, s', back⟩ := h.links x y s link
        -- whoever is linked with one of the two is the other one
        have open_ : ¬(y = r ∨ c.peer = some y) := by
          rintro (rfl | peer)
          · exact shut (Or.inr (congrArg Prod.fst (Option.some.inj (linked.symm.trans back))))
          · rw [peer] at linked
            obtain ⟨-, _, back'⟩ := h.links r y _ linked
            rw [back] at back'
            cases back'
            exact shut (Or.inl rfl)
        refine ⟨far, s', ?_⟩
        rw [closed, if_neg open_]
        exact back
    · intro p o mem
      obtain ⟨other, apart⟩ := foreign p o mem r rfl
      have open_ : ¬(p = r ∨ c.peer = some p) := by
        rintro (rfl | peer)
        · exact other rfl
        · rw [peer] at linked
          obtain ⟨-, _, back⟩ := h.links r p _ linked
          rw [h.opened p o mem] at back
          cases back
          exact apart rfl
      rw [closed, if_neg open_]
      exact h.opened p o mem

/-- Releasing the box of an endpoint without a peer. -/
theorem Sheltered.free (h : Sheltered P k) {r : Nat} {s : ChannelState} (ne : ∀ p o, P p o → r ≠ p)
    (single : k.links r = some (none, s)) : Sheltered P (k.setChan r none) where
  links x y s' link := by
    rw [links_setChan] at link
    split_ifs at link with eq
    · cases link
    · obtain ⟨far, s'', back⟩ := h.links x y s' link
      have ne' : y ≠ r := by
        rintro rfl
        rw [single] at back
        cases back
      refine ⟨far, s'', ?_⟩
      rw [links_setChan, if_neg ne']
      exact back
  opened p o mem := by
    rw [links_setChan, if_neg (Ne.symm (ne p o mem))]
    exact h.opened p o mem

/-- Dropping anything else leaves the endpoint open. -/
theorem Sheltered.drop (h : Sheltered P k) {object : KernelObject} (foreign : Foreign P object) :
    Sheltered P (dropObject object k).state := by
  cases object with
  | vmo v => exact h.of_chans (onMm_chans _ k).1
  | vmar r => exact h.of_chans (onMm_chans _ k).1
  | port _ => exact h
  | process _ => exact h
  | thread _ => exact h
  | channel r =>
    have closes := h.close foreign
    cases hc : k.chans r with
    | none =>
      have stuck : dropObject (.channel r) k = .fault k := by simp [dropObject, closeChannel, deref, hc]
      rwa [stuck]
    | some c =>
      obtain ⟨k', ran, -, closed⟩ := closeChannel_links h.links hc
      have whole : dropObject (.channel r) k = .ok () (k'.setChan r none) := by
        rw [dropObject, Prog.bind_ok ran]
        rfl
      rw [ran, Outcome.state_ok] at closes
      rw [whole, Outcome.state_ok]
      exact closes.free (fun p o mem => (foreign p o mem r rfl).1) (by rw [closed, if_pos (Or.inl rfl)])

/-! ## Tables and stashes -/

/-- The table has room for `n` more handles. -/
def RoomFor (k : Kernel) (tab n : Nat) : Prop := (k.tables tab).occupants.length + n ≤ maxHandles

def ForeignTable (P : Nat → Option Nat → Prop) (tab : Nat) (k : Kernel) : Prop :=
  ∀ s ∈ (k.tables tab).occupants, Foreign P s.object

def ForeignStash (P : Nat → Option Nat → Prop) (tid : Nat) (k : Kernel) : Prop :=
  ∀ i x, k.stashed tid i = some x → Foreign P x.1

theorem RoomFor.mono {tab m n : Nat} (h : k.RoomFor tab n) (le : m ≤ n) : k.RoomFor tab m := by
  unfold RoomFor at *
  omega

theorem foreign_vmo {object : KernelObject} (h : object.isVmo = true) : Foreign P object := by
  rintro _ _ _ r rfl
  cases h

theorem ForeignStash.of_untouched {tid : Nat} (h : ForeignStash P tid k) (still : Untouched k k') :
    ForeignStash P tid k' := fun i x stash => h i x ((stashed_of_slots (still.slots tid) i).symm.trans stash)

theorem ForeignStash.of_threads {tid : Nat} (h : ForeignStash P tid k) (threads : k'.thread? = k.thread?) :
    ForeignStash P tid k' := fun i x stash => h i x (by rwa [stashed, threads] at stash)

/-- What is in a stash after a change was there before, or is what has been put there. -/
theorem stashed_setStash {tid i j : Nat} {v : Option (KernelObject × Nat)} {x : KernelObject × Nat}
    (stash : (setStash tid i v k).stashed tid j = some x) : v = some x ∨ k.stashed tid j = some x := by
  obtain ⟨t, ht, cell⟩ := Option.bind_eq_some_iff.mp stash
  rw [setStash_thread?, if_pos rfl] at ht
  obtain ⟨u, hu, rfl⟩ := Option.map_eq_some_iff.mp ht
  simp only [List.getElem?_set] at cell
  split_ifs at cell with same lt
  · exact Or.inl (by simpa using cell)
  · cases cell
  · exact Or.inr (Option.bind_eq_some_iff.mpr ⟨u, hu, cell⟩)

theorem ForeignStash.setStash {tid i : Nat} {v : Option (KernelObject × Nat)} (h : ForeignStash P tid k)
    (foreign : ∀ x, v = some x → Foreign P x.1) : ForeignStash P tid (setStash tid i v k) := by
  intro j x stash
  rcases stashed_setStash stash with new | old
  · exact foreign x new
  · exact h j x old

/-- Adding to a full table: the object is dropped. -/
theorem addHandle_full {tab rights : Nat} {object : KernelObject} {E : Kernel → Prop}
    (full : ¬(k.tables tab).occupants.length < maxHandles)
    (drops : Prog.Post (dropObject object) k.bumpHandleValue (fun _ => E) E) :
    Prog.Post (addHandle tab object rights) k (fun _ _ => False) E := by
  have none_ : (k.tables tab).insert? ⟨k.handleValueCounter, rights, object⟩ = none :=
    Slots.insert?_eq_none.mpr (le_antisymm (Slots.occupants_length_le _) (Nat.not_lt.mp full))
  have next : nextHandleValue k = .ok k.handleValueCounter k.bumpHandleValue := rfl
  have put : putSlot tab ⟨k.handleValueCounter, rights, object⟩ k.bumpHandleValue =
      (do dropObject object; Prog.throw .noMemory : KernelM Unit) k.bumpHandleValue := by
    unfold putSlot
    rw [show (k.bumpHandleValue.tables tab).insert? _ = none from none_]
  have fails : Prog.Post (putSlot tab ⟨k.handleValueCounter, rights, object⟩) k.bumpHandleValue
      (fun _ _ => False) E := .congr put (drops.bind fun _ _ done => .throw done)
  exact .congr (Prog.bind_ok next) (fails.bind fun _ _ never => never.elim)

/-- Adding a handle: into a free cell, or the object is dropped. -/
theorem addHandle_sheltered {tab rights : Nat} {object : KernelObject} (h : Sheltered P k)
    (safe : k.RoomFor tab 1 ∨ Foreign P object) :
    Prog.Post (addHandle tab object rights) k (fun _ k' => Sheltered P k' ∧ Put tab (object, rights) k k')
      fun k' => Sheltered P k' ∧ Untouched k k' := by
  by_cases room : (k.tables tab).occupants.length < maxHandles
  · obtain ⟨hv, k', ran, put⟩ := addHandle_put (object, rights) room
    exact .of_ok ⟨hv, k', ran, h.of_chans put.chans, put⟩
  · have foreign : Foreign P object := safe.resolve_left room
    have bumped : Sheltered P k.bumpHandleValue := h.of_chans rfl
    have within := Prog.Post.of_within (m := dropObject object) (s := k.bumpHandleValue)
      (R := fun s s' => (Sheltered P s → Sheltered P s') ∧ Untouched s s')
      fun s => ⟨fun h => h.drop foreign, untouched_dropObject object s⟩
    refine (addHandle_full room (within.mono ?_ ?_)).mono (fun _ _ never => never.elim) fun _ done => done
    · exact fun _ k' kept => ⟨kept.1 bumped, kept.2.tables, kept.2.slots⟩
    · exact fun k' kept => ⟨kept.1 bumped, kept.2.tables, kept.2.slots⟩

/-! ## Taking a handle -/

/-- Threads and endpoints are what they were, and of the tables at most one has changed. -/
structure TableOnly (tab : Nat) (k k' : Kernel) : Prop where
  chans : k'.chans = k.chans
  threads : k'.thread? = k.thread?
  others : ∀ tab', tab' ≠ tab → k'.tables tab' = k.tables tab'

/-- A handle has been taken for sending: a duplicate, which denotes a VMO, or the handle itself. -/
structure Drawn (tab : Nat) (r : Option (KernelObject × Nat)) (k k' : Kernel) : Prop where
  only : TableOnly tab k k'
  length : (k'.tables tab).occupants.length ≤ (k.tables tab).occupants.length
  entries : ∀ s ∈ (k'.tables tab).occupants, s ∈ (k.tables tab).occupants ∨ s.object.isVmo = true
  object : ∀ x, r = some x → x.1.isVmo = true ∨ ∃ s ∈ (k.tables tab).occupants, s.object = x.1

/-- The entry of a duplicate. -/
def Doubled (tab hv : Nat) (k k' : Kernel) : Prop := TableOnly tab k k' ∧ ∃ s : HandleSlot, s.value = hv ∧
  s.object.isVmo = true ∧ (k'.tables tab).occupants.Perm (s :: (k.tables tab).occupants)

theorem duplicateHandle_doubled (tab h : Nat) (k : Kernel) :
    Prog.Post (duplicateHandle tab h 0) k (fun hv => Doubled tab hv k)
      fun k' => TableOnly tab k k' ∧ k'.tables = k.tables := by
  have same : TableOnly tab k k ∧ k.tables = k.tables := ⟨⟨rfl, rfl, fun _ _ => rfl⟩, rfl⟩
  cases find : (k.tables tab).find? (·.value == h) with
  | none =>
    have none_ : duplicateHandle tab h 0 k = .err .badHandle k := by
      simp [duplicateHandle, findSlot, Prog.bind_apply, find]
    exact .of_err none_ same
  | some s =>
    have found : findSlot tab h 0 k = .ok s k := by simp [findSlot, find, checkRights]
    refine .congr (Prog.bind_ok found) ?_
    cases dup : duplicateObject s.object with
    | error e => exact .throw same
    | ok obj =>
      obtain ⟨v, rfl⟩ : ∃ v, obj = .vmo v := by
        cases ho : s.object <;> simp [ho, duplicateObject] at dup
        exact ⟨_, dup.symm⟩
      by_cases room : (k.tables tab).occupants.length < maxHandles
      · obtain ⟨t, ins, ran⟩ := addHandle_room tab (.vmo v) s.rights room
        refine .of_ok ⟨_, _, ran, ⟨rfl, rfl, fun tab' ne => setTable_tables_ne k.bumpHandleValue t ne⟩,
          ⟨k.handleValueCounter, s.rights, .vmo v⟩, rfl, rfl, ?_⟩
        rw [setTable_tables_same]
        exact Slots.insert?_perm ins
      · -- the duplicate is dropped, which touches memory only
        have within := Prog.Post.of_within (m := dropObject (.vmo v)) (s := k.bumpHandleValue)
          (R := fun s s' => s'.chans = s.chans ∧ s'.thread? = s.thread? ∧ s'.tables = s.tables) fun s => by
            change (onMm v.drop s).state.chans = _ ∧ (onMm v.drop s).state.thread? = _ ∧
              (onMm v.drop s).state.tables = _
            unfold onMm Prog.zoom
            split <;> exact ⟨rfl, rfl, rfl⟩
        have fails : Prog.Post (addHandle tab (.vmo v) s.rights) k (fun _ _ => False)
            fun k' => k'.chans = k.chans ∧ k'.thread? = k.thread? ∧ k'.tables = k.tables :=
          addHandle_full room within
        refine fails.mono (fun _ _ never => never.elim) ?_
        rintro k' ⟨chans, threads, tables⟩
        exact ⟨⟨chans, threads, fun tab' _ => congrFun tables tab'⟩, tables⟩

/-- The second half: remove what has been found. -/
def removeTaken (tab source : Nat) : KernelM (Option (KernelObject × Nat)) := do
  match ← Prog.attempt (removeWithRights tab source) with
  | .ok o => return some o
  | .error _ => return none

theorem removeTaken_none {tab source : Nat} (none_ : (k.tables tab).take? (·.value == source) = none) :
    removeTaken tab source k = .ok none k := by
  simp [removeTaken, removeWithRights, Prog.bind_apply, Prog.attempt, none_]

theorem removeTaken_some {tab source : Nat} {s : HandleSlot} {t : HandleTable}
    (take : (k.tables tab).take? (·.value == source) = some (s, t)) :
    removeTaken tab source k = .ok (some (s.object, s.rights)) (k.setTable tab t) := by
  simp [removeTaken, removeWithRights, Prog.bind_apply, Prog.attempt, take]

theorem takeHandle_drawn (tab h : Nat) (k : Kernel) :
    Prog.Post (takeHandle tab h) k (fun r k' => Drawn tab r k k') fun k' => k'.chans = k.chans := by
  refine Prog.Post.attempt_bind (duplicateHandle_doubled tab h k) (fun hv k₁ doubled => ?_)
    (fun e k₁ failed => ?_) fun _ failed => failed.1.chans
  · change Prog.Post (removeTaken tab hv) k₁ _ _
    obtain ⟨only, s₀, value, vmo, perm⟩ := doubled
    cases take : (k₁.tables tab).take? (·.value == hv) with
    | none =>
      have absent := Slots.take?_eq_none.mp take
      rw [Slots.find?_eq, List.find?_eq_none] at absent
      exact absurd value (by simpa using absent s₀ (perm.mem_iff.mpr List.mem_cons_self))
    | some r =>
      obtain ⟨s, t⟩ := r
      have whole := Slots.take?_perm take
      refine .of_ok ⟨_, _, removeTaken_some take, ⟨only.chans, only.threads, fun tab' ne => ?_⟩, ?_, ?_, ?_⟩
      · rw [setTable_tables_ne _ _ ne, only.others tab' ne]
      · rw [setTable_tables_same]
        have counts := whole.length_eq.symm.trans perm.length_eq
        rw [List.length_cons, List.length_cons] at counts
        omega
      · rw [setTable_tables_same]
        intro s' mem
        have mem₁ := whole.mem_iff.mpr (List.mem_cons_of_mem _ mem)
        rcases List.mem_cons.mp (perm.mem_iff.mp mem₁) with rfl | old
        · exact Or.inr vmo
        · exact Or.inl old
      · rintro x eq
        obtain rfl := Option.some.inj eq
        rcases List.mem_cons.mp (perm.mem_iff.mp (whole.mem_iff.mpr List.mem_cons_self)) with rfl | old
        · exact Or.inl vmo
        · exact Or.inr ⟨s, old, rfl⟩
  · change Prog.Post (removeTaken tab h) k₁ _ _
    obtain ⟨only, tables⟩ := failed
    cases take : (k₁.tables tab).take? (·.value == h) with
    | none =>
      refine .of_ok ⟨_, _, removeTaken_none take, only, ?_, ?_, fun x none_ => nomatch none_⟩
      · rw [tables]
      · rw [tables]
        exact fun _ => Or.inl
    | some r =>
      obtain ⟨s, t⟩ := r
      have whole := Slots.take?_perm take
      rw [tables] at whole
      refine .of_ok ⟨_, _, removeTaken_some take, ⟨only.chans, only.threads, fun tab' ne => ?_⟩, ?_, ?_, ?_⟩
      · rw [setTable_tables_ne _ _ ne, only.others tab' ne]
      · rw [setTable_tables_same, whole.length_eq]
        exact Nat.le_succ _
      · rw [setTable_tables_same]
        exact fun s' mem => Or.inl (whole.mem_iff.mpr (List.mem_cons_of_mem _ mem))
      · rintro x eq
        obtain rfl := Option.some.inj eq
        exact Or.inr ⟨s, whole.mem_iff.mpr List.mem_cons_self, rfl⟩

section Transfer

variable {tab rtab n : Nat} {r : Option (KernelObject × Nat)} {x : KernelObject × Nat}

theorem Drawn.room (h : Drawn tab r k k') (room : k.RoomFor rtab n) : k'.RoomFor rtab n := by
  unfold RoomFor at *
  by_cases same : rtab = tab
  · subst same
    exact (Nat.add_le_add_right h.length n).trans room
  · rwa [h.only.others rtab same]

theorem Drawn.foreignTable (h : Drawn tab r k k') (foreign : ForeignTable P tab k) :
    ForeignTable P tab k' := by
  intro s mem
  rcases h.entries s mem with old | vmo
  · exact foreign s old
  · exact foreign_vmo vmo

theorem Drawn.foreign (h : Drawn tab r k k') (foreign : ForeignTable P tab k) (eq : r = some x) :
    Foreign P x.1 := by
  rcases h.object x eq with vmo | ⟨s, mem, same⟩
  · exact foreign_vmo vmo
  · exact same ▸ foreign s mem

theorem Put.room (h : Put tab x k k') (room : k.RoomFor tab (n + 1)) : k'.RoomFor tab n := by
  have length := h.length
  unfold RoomFor at *
  omega

theorem Put.foreignTable (h : Put rtab x k k') (foreign : ForeignTable P tab k) (fx : Foreign P x.1) :
    ForeignTable P tab k' := by
  intro s mem
  by_cases same : tab = rtab
  · subst same
    obtain ⟨v, perm⟩ := h.table
    rcases List.mem_cons.mp (perm.mem_iff.mp mem) with rfl | old
    · exact fx
    · exact foreign s old
  · rw [h.others tab same] at mem
    exact foreign s mem

/-! ## The transfer loops -/

/-- Into the receiver's table: it has room, or nothing in the sender's table is to be sheltered. -/
theorem injectHandles_sheltered {receiver : Nat} {hs : List Nat} (i : Nat) (h : Sheltered P k)
    (safe : k.RoomFor rtab hs.length ∨ ForeignTable P tab k) :
    Prog.Post (injectHandles tab rtab receiver hs i) k (fun _ => Sheltered P) (Sheltered P) := by
  induction hs generalizing i k with
  | nil => exact .pure h
  | cons hd hs ih =>
    refine Prog.Post.bind ((takeHandle_drawn tab hd k).mono (fun _ _ => id) fun _ => h.of_chans)
      fun r k₁ drawn => ?_
    have h₁ := h.of_chans drawn.only.chans
    have safe₁ : k₁.RoomFor rtab (hs.length + 1) ∨ ForeignTable P tab k₁ :=
      safe.imp drawn.room drawn.foreignTable
    cases r with
    | none => exact ih i h₁ (safe₁.imp_left fun room => room.mono (Nat.le_succ _))
    | some x =>
      have fits : k₁.RoomFor rtab 1 ∨ Foreign P x.1 :=
        safe.imp (fun room => (drawn.room room).mono (Nat.le_add_left 1 _)) fun foreign =>
          drawn.foreign foreign rfl
      refine Prog.Post.attempt_bind (addHandle_sheltered h₁ fits) (fun hv k₂ added => ?_)
        (fun e k₂ dropped => ?_) fun _ dropped => dropped.1
      · refine .modify_bind (ih (i + 1) (added.1.of_chans rfl) ?_)
        have still := untouched_deliver k₂ receiver i hv
        unfold RoomFor ForeignTable
        rw [still.tables]
        rcases safe with room | foreign
        · exact Or.inl (added.2.room (drawn.room room))
        · exact Or.inr (added.2.foreignTable (drawn.foreignTable foreign) (drawn.foreign foreign rfl))
      · refine ih i dropped.1 ?_
        unfold RoomFor ForeignTable
        rw [dropped.2.tables]
        exact safe₁.imp_left fun room => room.mono (Nat.le_succ _)

/-- Out of a stash into a table. -/
theorem receiveStash_sheltered {cur sender : Nat} {cells : List Nat} (i : Nat) (h : Sheltered P k)
    (safe : k.RoomFor tab cells.length ∨ ForeignStash P sender k) :
    Prog.Post (receiveStash tab cur sender cells i) k (fun _ => Sheltered P) (Sheltered P) := by
  induction cells generalizing i k with
  | nil => exact .pure h
  | cons j cells ih =>
    refine .get_bind ?_
    cases stash : k.stashed sender j with
    | none => exact ih i h (safe.imp_left fun room => room.mono (Nat.le_succ _))
    | some x =>
      have h₁ : Sheltered P (setStash sender j none k) := h.of_chans rfl
      have emptied : ForeignStash P sender k → ForeignStash P sender (setStash sender j none k) :=
        fun foreign => foreign.setStash fun _ none_ => nomatch none_
      have fits : (setStash sender j none k).RoomFor tab 1 ∨ Foreign P x.1 :=
        safe.imp (fun room => room.mono (Nat.le_add_left 1 _)) fun foreign => foreign j x stash
      refine .modify_bind (Prog.Post.attempt_bind (addHandle_sheltered h₁ fits) (fun hv k₂ added => ?_)
        (fun e k₂ dropped => ?_) fun _ dropped => dropped.1)
      · refine .modify_bind (ih (i + 1) (added.1.of_chans rfl) ?_)
        rcases safe with room | foreign
        · exact Or.inl (added.2.room room)
        · exact Or.inr (((emptied foreign).of_threads added.2.threads).of_untouched
            (untouched_deliver k₂ cur i hv))
      · refine ih i dropped.1 ?_
        rcases safe with room | foreign
        · refine Or.inl (RoomFor.mono ?_ (Nat.le_succ _))
          unfold RoomFor at *
          rw [dropped.2.tables]
          exact room
        · exact Or.inr ((emptied foreign).of_untouched dropped.2)

/-- Back into the table of the sender. -/
theorem restoreStash_sheltered {cur : Nat} {cells : List Nat} (h : Sheltered P k)
    (safe : k.RoomFor tab cells.length ∨ ForeignStash P cur k) :
    Prog.Post (restoreStash tab cur cells) k (fun _ => Sheltered P) (Sheltered P) := by
  induction cells generalizing k with
  | nil => exact .pure h
  | cons j cells ih =>
    refine .get_bind ?_
    cases stash : k.stashed cur j with
    | none => exact ih h (safe.imp_left fun room => room.mono (Nat.le_succ _))
    | some x =>
      have h₁ : Sheltered P (setStash cur j none k) := h.of_chans rfl
      have emptied : ForeignStash P cur k → ForeignStash P cur (setStash cur j none k) :=
        fun foreign => foreign.setStash fun _ none_ => nomatch none_
      have fits : (setStash cur j none k).RoomFor tab 1 ∨ Foreign P x.1 :=
        safe.imp (fun room => room.mono (Nat.le_add_left 1 _)) fun foreign => foreign j x stash
      refine .modify_bind (Prog.Post.attempt_bind (addHandle_sheltered h₁ fits) (fun hv k₂ added => ?_)
        (fun e k₂ dropped => ?_) fun _ dropped => dropped.1)
      · refine ih added.1 ?_
        rcases safe with room | foreign
        · exact Or.inl (added.2.room room)
        · exact Or.inr ((emptied foreign).of_threads added.2.threads)
      · refine ih dropped.1 ?_
        rcases safe with room | foreign
        · refine Or.inl (RoomFor.mono ?_ (Nat.le_succ _))
          unfold RoomFor at *
          rw [dropped.2.tables]
          exact room
        · exact Or.inr ((emptied foreign).of_untouched dropped.2)

/-- Out of a table into the stash, where nothing is dropped. -/
theorem stashHandles_sheltered {cur : Nat} {hs : List Nat} (i : Nat) (h : Sheltered P k)
    (safe : k.RoomFor tab n ∨ ForeignTable P tab k ∧ ForeignStash P cur k) :
    Prog.Post (stashHandles tab cur hs i) k
      (fun _ k' => Sheltered P k' ∧ (k'.RoomFor tab n ∨ ForeignStash P cur k')) (Sheltered P) := by
  induction hs generalizing i k with
  | nil => exact .pure ⟨h, safe.imp_right And.right⟩
  | cons hd hs ih =>
    refine Prog.Post.bind ((takeHandle_drawn tab hd k).mono (fun _ _ => id) fun _ => h.of_chans)
      fun r k₁ drawn => ?_
    have h₁ := h.of_chans drawn.only.chans
    cases r with
    | none =>
      refine ih i h₁ (safe.imp drawn.room fun foreign => ?_)
      exact ⟨drawn.foreignTable foreign.1, foreign.2.of_threads drawn.only.threads⟩
    | some x =>
      refine .modify_bind (ih (i + 1) (h₁.of_chans rfl) (safe.imp drawn.room fun foreign => ?_))
      refine ⟨drawn.foreignTable foreign.1, (foreign.2.of_threads drawn.only.threads).setStash ?_⟩
      rintro _ ⟨⟩
      exact drawn.foreign foreign.1 rfl

theorem tableOf_setStash (tid i : Nat) (v : Option (KernelObject × Nat)) (cur : Nat) :
    (setStash tid i v k).tableOf cur = k.tableOf cur := by
  rw [tableOf, tableOf, setStash_thread?]
  split_ifs
  · cases k.thread? cur <;> rfl
  · rfl

theorem tableOf_of_steady (steady : Steady k k') (cur : Nat) : k'.tableOf cur = k.tableOf cur := by
  have same := congrArg (Option.bind · Thread.handleTable) (steady cur)
  rw [tableOf, tableOf]
  cases ht : k.thread? cur <;> cases ht' : k'.thread? cur <;> simp_all [Thread.setState]

/-- Emptying a stash in which nothing is to be sheltered. -/
theorem clearStash_sheltered {cur : Nat} {cells : List Nat} (h : Sheltered P k)
    (foreign : ForeignStash P cur k) :
    Prog.Post (clearStash cur cells) k (fun _ k' => Sheltered P k' ∧ ForeignStash P cur k' ∧
      k'.tables = k.tables ∧ k'.tableOf cur = k.tableOf cur) (Sheltered P) := by
  induction cells generalizing k with
  | nil => exact .pure ⟨h, foreign, rfl, rfl⟩
  | cons j cells ih =>
    refine .get_bind ?_
    cases stash : k.stashed cur j with
    | none => exact ih h foreign
    | some x =>
      have h₁ : Sheltered P (setStash cur j none k) := h.of_chans rfl
      have foreign₁ : ForeignStash P cur (setStash cur j none k) :=
        foreign.setStash fun _ none_ => nomatch none_
      have within := Prog.Post.of_within (m := dropObject x.1) (s := setStash cur j none k)
        (R := fun s s' => (Sheltered P s → Sheltered P s') ∧ Untouched s s' ∧ Steady s s')
        fun s => ⟨fun h => h.drop (foreign j x stash), untouched_dropObject x.1 s,
          steady_handles.dropObject x.1 s⟩
      refine .modify_bind ((within.mono (fun _ _ => id) fun _ kept => kept.1 h₁).bind fun _ k₂ kept => ?_)
      refine (ih (kept.1 h₁) (foreign₁.of_untouched kept.2.1)).mono (fun _ k₃ done => ?_) fun _ => id
      obtain ⟨h₃, foreign₃, tables, table⟩ := done
      refine ⟨h₃, foreign₃, tables.trans kept.2.1.tables, table.trans ?_⟩
      rw [tableOf_of_steady kept.2.2, tableOf_setStash]

end Transfer

/-! ## Calls -/

section Calls

variable {cur self : Nat} {data : List UInt8} {hs : List Nat} {w : Thread}

theorem tableOf_modify {f : Thread → Thread} (tid : Nat) (hf : ∀ t, (f t).id = t.id)
    (table : ∀ t, (f t).handleTable = t.handleTable) :
    (k.modifyThread tid f).tableOf cur = k.tableOf cur := by
  rw [tableOf, tableOf, thread?_modifyThread _ hf]
  split_ifs
  · cases k.thread? cur with
    | none => rfl
    | some t => exact table t
  · rfl

theorem passHandles_sheltered (h : Sheltered P k) (safe : ∀ tab rtab, k.tableOf cur = some tab →
    w.handleTable = some rtab → k.RoomFor rtab (hs.take 2).length ∨ ForeignTable P tab k) :
    Prog.Post (passHandles cur w hs) k (fun _ => Sheltered P) (Sheltered P) := by
  cases ht : k.thread? cur with
  | none =>
    have failed : currentThread cur k = .err .threadNotFound k := by simp [currentThread, ht]
    exact .of_err (Prog.bind_err failed) h
  | some t =>
    have here : currentThread cur k = .ok t k := by simp [currentThread, ht]
    refine .congr (Prog.bind_ok here) ?_
    have own : k.tableOf cur = t.handleTable := by rw [tableOf, ht, Option.bind_some]
    cases table : t.handleTable with
    | none => exact .pure h
    | some tab =>
      cases theirs : w.handleTable with
      | none => exact .pure h
      | some rtab => exact injectHandles_sheltered 0 h (safe tab rtab (own.trans table) theirs)

theorem sendTo_sheltered (h : Sheltered P k) (safe : ∀ tab rtab, k.tableOf cur = some tab →
    w.handleTable = some rtab → k.RoomFor rtab (hs.take 2).length ∨ ForeignTable P tab k) :
    Sheltered P (sendTo cur w data hs k).state := by
  set n := min data.length w.ipcBuf.length
  have h₀ : Sheltered P (k.modifyThread w.id (·.fill (data.take n))) := h.of_chans rfl
  refine Prog.Post.state (.modify_bind ?_)
  refine (passHandles_sheltered h₀ fun tab rtab own theirs => ?_).bind fun _ k₁ h₁ => ?_
  · exact safe tab rtab ((tableOf_modify w.id (by intro; rfl) (by intro; rfl)).symm.trans own) theirs
  · exact .modify_bind (.pure (h₁.of_chans (answerWaiter_chans _ _ k₁)))

theorem finishRead_sheltered (h : Sheltered P k) (n : Nat) (buf : List UInt8) :
    Prog.Post (finishRead cur n buf hs) k (fun _ => Sheltered P) (Sheltered P) := by
  cases ht : k.thread? cur with
  | none =>
    have failed : currentThread cur k = .err .threadNotFound k := by simp [currentThread, ht]
    exact .of_err (Prog.bind_err failed) h
  | some t => exact .of_ok ⟨_, _, finishRead_ok ht n buf hs, h.of_chans rfl⟩

theorem receiveFrom_sheltered (h : Sheltered P k)
    (safe : ∀ tab, k.tableOf cur = some tab → k.RoomFor tab 2 ∨ ForeignStash P w.id k) :
    Sheltered P (receiveFrom cur w data hs k).state := by
  have collected : Prog.Post (collectHandles cur w.id) k (fun _ => Sheltered P) (Sheltered P) := by
    cases ht : k.thread? cur with
    | none =>
      have failed : currentThread cur k = .err .threadNotFound k := by simp [currentThread, ht]
      exact .of_err (Prog.bind_err failed) h
    | some t =>
      have here : currentThread cur k = .ok t k := by simp [currentThread, ht]
      refine .congr (Prog.bind_ok here) ?_
      have own : k.tableOf cur = t.handleTable := by rw [tableOf, ht, Option.bind_some]
      cases table : t.handleTable with
      | none => exact .pure h
      | some tab => exact receiveStash_sheltered 0 h (safe tab (own.trans table))
  refine Prog.Post.state (collected.bind fun _ k₁ h₁ => .modify_bind ?_)
  exact finishRead_sheltered (h₁.of_chans (answerWaiter_chans _ _ k₁)) _ _

/-- What a write of `n` handles that has to wait may have in its stash and in its table, where there may
be `m` more entries by then. -/
structure SafeToWait (P : Nat → Option Nat → Prop) (cur n m : Nat) (k : Kernel) : Prop where
  stash : ForeignStash P cur k
  table : ∀ tab, k.tableOf cur = some tab → n = 0 ∨ k.RoomFor tab (2 + m) ∨ ForeignTable P tab k

theorem stashMessage_sheltered (h : Sheltered P k) (safe : SafeToWait P cur (hs.take 2).length 0 k) :
    Prog.Post (stashMessage cur hs) k (fun tab k' => Sheltered P k' ∧
      ∀ tab', tab = some tab' → k'.RoomFor tab' 2 ∨ ForeignStash P cur k') (Sheltered P) := by
  refine (clearStash_sheltered h safe.stash).bind fun _ k₁ cleared => ?_
  obtain ⟨h₁, foreign, tables, table_eq⟩ := cleared
  cases ht : k₁.thread? cur with
  | none =>
    have failed : currentThread cur k₁ = .err .threadNotFound k₁ := by simp [currentThread, ht]
    exact .of_err (Prog.bind_err failed) h₁
  | some t =>
    have here : currentThread cur k₁ = .ok t k₁ := by simp [currentThread, ht]
    have own : k.tableOf cur = t.handleTable := by rw [← table_eq, tableOf, ht, Option.bind_some]
    refine .congr (Prog.bind_ok here) ?_
    cases table : t.handleTable with
    | none => exact .pure ⟨h₁, fun _ none_ => by cases none_⟩
    | some tab =>
      rcases safe.table tab (own.trans table) with empty | room
      · rw [List.length_eq_zero_iff.mp empty]
        exact .pure ⟨h₁, fun _ _ => Or.inr foreign⟩
      · have safe₁ : k₁.RoomFor tab 2 ∨ ForeignTable P tab k₁ ∧ ForeignStash P cur k₁ := by
          unfold RoomFor ForeignTable at *
          rw [tables]
          exact room.imp_right fun apart => ⟨apart, foreign⟩
        refine (stashHandles_sheltered 0 h₁ safe₁).bind fun _ k₂ done => .pure ⟨done.1, ?_⟩
        rintro tab' ⟨⟩
        exact done.2

theorem waitSender_sheltered (h : Sheltered P k) (safe : SafeToWait P cur (hs.take 2).length 0 k) :
    Sheltered P (waitSender cur self data hs k).state := by
  have safe₁ : SafeToWait P cur (hs.take 2).length 0 (k.modifyThread cur (·.block data)) := by
    refine ⟨safe.stash.of_untouched (.of_modify k cur (by intro; rfl) (by intro; rfl)), fun tab own => ?_⟩
    exact safe.table tab ((tableOf_modify cur (by intro; rfl) (by intro; rfl)).symm.trans own)
  have h₀ : Sheltered P (k.modifyThread cur (·.block data)) := h.of_chans rfl
  refine Prog.Post.state (.modify_bind ?_)
  refine (stashMessage_sheltered h₀ safe₁).bind fun tab k₁ stashed => ?_
  obtain ⟨h₁, restorable⟩ := stashed
  cases hc : k₁.chans self with
  | none =>
    have stuck : deref self k₁ = .fault k₁ := by simp [deref, hc]
    exact .of_fault (Prog.bind_fault stuck) h₁
  | some c =>
    have live : deref self k₁ = .ok c k₁ := by simp [deref, hc]
    refine .congr (Prog.bind_ok live) ?_
    cases push : c.pushSender cur with
    | none =>
      have restored : Prog.Post (restoreMessage cur tab) k₁ (fun _ => Sheltered P) (Sheltered P) := by
        cases tab with
        | none => exact .pure h₁
        | some tab => exact restoreStash_sheltered h₁ (restorable tab rfl)
      exact restored.bind fun _ k₂ h₂ => .modify_bind (.throw (h₂.of_chans rfl))
    | some c' =>
      obtain ⟨peer, state⟩ := push_same (show Side.send.push c cur = some c' from push)
      exact .modify_bind (.pure (h₁.of_links (links_requeue hc peer state)))

theorem waitReceiver_sheltered {call : Call} (h : Sheltered P k) :
    Sheltered P (waitReceiver cur self call k).state := by
  cases hc : k.chans self with
  | none =>
    have stuck : deref self k = .fault k := by simp [deref, hc]
    rw [waitReceiver, Prog.bind_fault stuck]
    exact h
  | some c =>
    have live : deref self k = .ok c k := by simp [deref, hc]
    rw [waitReceiver, Prog.bind_ok live]
    cases push : c.pushReceiver cur with
    | none => exact h.of_chans rfl
    | some c' =>
      obtain ⟨peer, state⟩ := push_same (show Side.recv.push c cur = some c' from push)
      exact h.of_links (links_requeue hc peer state)

theorem meet_sheltered {side : Side} {serve : Thread → KernelM CallResult} {wait : KernelM CallResult}
    (h : Sheltered P k)
    (served : ∀ w k₁, k.served side self = some (w, k₁) → Sheltered P k₁ → k₁.tables = k.tables →
      k₁.thread? = k.thread? → Sheltered P (serve w k₁).state)
    (waited : ∀ k₁, k.served side self = none → Sheltered P k₁ → k₁.tables = k.tables →
      k₁.thread? = k.thread? → Sheltered P (wait k₁).state) :
    Sheltered P (meet side cur self serve wait k).state := by
  cases hc : k.chans self with
  | none => simpa [meet, Prog.bind_apply, deref, hc] using h
  | some c =>
    by_cases closed : c.state = .closed
    · simpa [meet, Prog.bind_apply, deref, hc, closed] using h
    · cases ht : k.thread? cur with
      | none => simpa [meet, Prog.bind_apply, deref, hc, closed, currentThread, ht] using h
      | some t =>
        cases peer : c.peer with
        | none => simpa [meet, Prog.bind_apply, deref, hc, closed, currentThread, ht, peer] using h
        | some q =>
          obtain ⟨ne, _, live⟩ := h.links self q c.state (by rw [links_some hc, peer])
          obtain ⟨d, hd, -⟩ := Option.map_eq_some_iff.mp live
          cases pop : side.pop d with
          | none =>
            rw [meet_wait hc closed ht peer hd pop]
            exact waited k (by simp [Kernel.served, hc, closed, peer, hd, pop]) h rfl rfl
          | some r =>
            obtain ⟨tid, d'⟩ := r
            obtain ⟨peer', state'⟩ := pop_same pop
            have popped : Sheltered P (k.setChan q (some d')) := h.of_links (links_requeue hd peer' state')
            cases hw : k.thread? tid with
            | none =>
              -- the thread is gone, but it has been taken out of its line
              have skipped : meet side cur self serve wait k = wait (k.setChan q (some d')) := by
                simp [meet, Prog.bind_apply, deref, hc, closed, currentThread, ht, peer, takeWaiter,
                  hd, pop, hw]
              rw [skipped]
              exact waited _ (by simp [Kernel.served, hc, closed, peer, hd, pop, hw]) popped rfl rfl
            | some w =>
              rw [meet_serve hc closed ht peer hd pop hw]
              exact served w _ (by simp [Kernel.served, hc, closed, peer, hd, pop, hw]) popped rfl rfl

/-- What a write of `n` handles may transfer, where there may be `m` more entries in a table by then. -/
structure SafeToSend (P : Nat → Option Nat → Prop) (cur chan n m : Nat) (k : Kernel) : Prop where
  pass : ∀ w k₁ tab rtab, k.served .recv chan = some (w, k₁) → k.tableOf cur = some tab →
    w.handleTable = some rtab → k.RoomFor rtab (n + m) ∨ ForeignTable P tab k
  wait : k.served .recv chan = none → SafeToWait P cur n m k

theorem channelWrite_sheltered (h : Sheltered P k) (safe : SafeToSend P cur self (hs.take 2).length 0 k) :
    Sheltered P (channelWrite cur self data hs k).state := by
  refine meet_sheltered h (fun w k₁ found h₁ tables threads => ?_) fun k₁ nobody h₁ tables threads => ?_
  · refine sendTo_sheltered h₁ fun tab rtab own theirs => ?_
    unfold RoomFor ForeignTable
    rw [tables]
    exact safe.pass w k₁ tab rtab found (by rwa [tableOf, threads] at own) theirs
  · obtain ⟨stash, table⟩ := safe.wait nobody
    refine waitSender_sheltered h₁ ⟨stash.of_threads threads, fun tab own => ?_⟩
    unfold RoomFor ForeignTable
    rw [tables]
    exact table tab (by rwa [tableOf, threads] at own)

/-- What a read may take over. -/
def SafeToReceive (P : Nat → Option Nat → Prop) (cur self : Nat) (k : Kernel) : Prop :=
  ∀ w k₁ tab, k.served .send self = some (w, k₁) → k.tableOf cur = some tab →
    k.RoomFor tab 2 ∨ ForeignStash P w.id k

theorem readWith_sheltered {wait : KernelM CallResult} (h : Sheltered P k)
    (safe : SafeToReceive P cur self k)
    (waits : ∀ k₁, Sheltered P k₁ → Sheltered P (wait k₁).state) :
    Sheltered P (readWith cur self data hs wait k).state := by
  refine meet_sheltered h (fun w k₁ found h₁ tables threads => ?_) fun k₁ _ h₁ _ _ => waits k₁ h₁
  refine receiveFrom_sheltered h₁ fun tab own => ?_
  rcases safe w k₁ tab found (by rwa [tableOf, threads] at own) with room | foreign
  · unfold RoomFor
    rw [tables]
    exact Or.inl room
  · exact Or.inr (foreign.of_threads threads)

theorem resume_sheltered (h : Sheltered P k) : Sheltered P (resume cur k).state := by
  have woken : Sheltered P (wakeUp cur k) := h.of_chans rfl
  cases ht : k.thread? cur with
  | none => simpa [resume, Prog.bind_apply, currentThread, ht] using h
  | some t =>
    cases hcall : t.call with
    | none => simpa [resume, Prog.bind_apply, currentThread, ht, hcall] using woken
    | some call =>
      cases call with
      | write p => simpa [resume_write ht hcall] using woken
      | read p hs =>
        rw [resume_read ht hcall]
        exact woken.of_chans rfl
      | readWithTimeout q hs dl =>
        rw [resume_readWithTimeout ht hcall]
        by_cases late : dl.any ((wakeUp cur k).ticks ≥ ·)
        · cases hq : (wakeUp cur k).chans q with
          | none => simpa [finishTimedRead, Prog.bind_apply, late, deref, hq] using woken
          | some c =>
            obtain ⟨peer, state⟩ := removeReceiver_same c cur
            have left := woken.of_links (links_requeue hq peer state)
            have gave : Sheltered P (((wakeUp cur k).setChan q (some (c.removeReceiver cur))).modifyThread
              cur (·.giveUp)) := left.of_chans rfl
            simpa [finishTimedRead, Prog.bind_apply, late, deref, hq] using gave
        · have last : Sheltered P (finishRead cur t.ipcActualLen t.ipcBuf hs (wakeUp cur k)).state :=
            (finishRead_sheltered woken t.ipcActualLen t.ipcBuf).state
          simpa [finishTimedRead, Prog.bind_apply, late] using last

end Calls

end Kernel

end CapsuleOS
