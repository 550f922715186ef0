import CapsuleOS.Ipc.FailedWrite
import CapsuleOS.Ipc.PeersRun
import CapsuleOS.Ipc.RegistryRun

/-!
# Failed creation and lookup of channels

`sys_channel_create` and `sys_channel_lookup` store two handles, and what can fail after the first is
stored returns by `?` without taking it out again. So the only failures that leave the handles of the
caller as they were are those that store nothing: a full table, and for a lookup an unknown name.
-/
namespace CapsuleOS

open Lib

namespace Kernel

/-- The table has the same handles, with the same objects and rights. -/
def SameHandles (tab : Nat) (k k' : Kernel) : Prop :=
  (k'.tables tab).occupants.Perm (k.tables tab).occupants

/-- Nobody is registered under the name. -/
def Unknown (k : Kernel) (name : List UInt8) : Prop :=
  name = [] ∨ k.registry.find? (·.name == name.take serviceNameMax) = none

/-- How many handles the table has. -/
def handleCount (k : Kernel) (tab : Nat) : Nat := (k.tables tab).occupants.length

variable {k k' : Kernel} {cur tab a₀ a₁ : Nat} {name : List UInt8} {e : Status}

theorem SameHandles.count (h : SameHandles tab k k') : k'.handleCount tab = k.handleCount tab :=
  h.length_eq

theorem sameHandles_of_tables (h : k'.tables = k.tables) : SameHandles tab k k' := by
  rw [SameHandles, h]

theorem handleCount_le (k : Kernel) (tab : Nat) : k.handleCount tab ≤ maxHandles :=
  (k.tables tab).occupants_length_le

theorem Grows.count (h : Grows tab k k') : k.handleCount tab ≤ k'.handleCount tab := h.length_le

/-! ## Creation -/

/-- `add` stores one handle, or finds the table full and stores none. -/
theorem addHandle_counts (tab : Nat) (o : KernelObject) (rights : Nat) (k : Kernel) :
    Prog.Post (addHandle tab o rights) k (fun _ k' => k'.handleCount tab = k.handleCount tab + 1)
      fun k' => (k.tables tab).Full ∧ k'.tables = k.tables := by
  by_cases room : (k.tables tab).occupants.length < maxHandles
  · obtain ⟨t, put, ran⟩ := addHandle_room tab o rights room
    refine .of_ok ⟨_, _, ran, ?_⟩
    rw [handleCount, setTable_tables_same, (Slots.insert?_perm put).length_eq]
    rfl
  · have full : (k.tables tab).Full := le_antisymm (handleCount_le k tab) (Nat.not_lt.mp room)
    have dropped := Prog.Post.of_within (s := k.bumpHandleValue) (untouched_dropObject o)
    refine (addHandle_full room (dropped.mono (fun _ k' still => ?_) fun k' still => ?_)).mono
      (fun _ _ never => never.elim) fun _ done => done
    · exact ⟨full, still.tables⟩
    · exact ⟨full, still.tables⟩

theorem addChannel_counts (tab a : Nat) (c : Channel) (k : Kernel) :
    Prog.Post (addChannel tab a c) k (fun _ k' => k'.handleCount tab = k.handleCount tab + 1)
      fun k' => (k.tables tab).Full ∧ k'.tables = k.tables :=
  .modify_bind (addHandle_counts tab (.channel a) channelRights (k.setChan a (some c)))

theorem grows_setPeer (tab' h q : Nat) : Prog.Within (Grows tab) (setPeer tab' h q) := by
  refine (within_withChannel tab' h channelRights).bind fun p => (within_deref p).bind fun c => ?_
  exact .modify fun k => grows_of_tables rfl

/-- How a pair is linked once both ends are in the table. -/
def linkPair (tab h₀ h₁ : Nat) : KernelM (Nat × Nat) := do
  let p₀ ← withChannel tab h₀ channelRights
  let p₁ ← withChannel tab h₁ channelRights
  setPeer tab h₀ p₁
  setPeer tab h₁ p₀
  return (h₀, h₁)

theorem grows_linkPair (h₀ h₁ : Nat) : Prog.Within (Grows tab) (linkPair tab h₀ h₁) :=
  (within_withChannel _ _ _).bind fun _ => (within_withChannel _ _ _).bind fun _ =>
    (grows_setPeer _ _ _).bind fun _ => (grows_setPeer _ _ _).bind fun _ => .pure _

/-- The creation of a pair stores both handles, or fails with one or two of them stored, or finds the
table full. -/
theorem createPair_counts (tab a₀ a₁ : Nat) (k : Kernel) :
    Prog.Post (createPair tab a₀ a₁) k (fun _ k' => k.handleCount tab + 2 ≤ k'.handleCount tab)
      fun k' => (k.tables tab).Full ∧ k'.tables = k.tables ∨ k.handleCount tab < k'.handleCount tab := by
  obtain ⟨c₀, k₁, new₀, same₁⟩ : ∃ c k₁, newChannel k = .ok c k₁ ∧ k₁.tables = k.tables :=
    ⟨_, _, rfl, rfl⟩
  obtain ⟨c₁, k₂, new₁, same₂⟩ : ∃ c k₂, newChannel k₁ = .ok c k₂ ∧ k₂.tables = k₁.tables :=
    ⟨_, _, rfl, rfl⟩
  have same : k₂.tables = k.tables := same₂.trans same₁
  have start : k₂.handleCount tab = k.handleCount tab := by rw [handleCount, handleCount, same]
  refine .congr (Prog.bind_ok new₀) (.congr (Prog.bind_ok new₁) ?_)
  refine ((addChannel_counts tab a₀ c₀ k₂).mono (fun _ _ => id) fun k' full => Or.inl ?_).bind
    fun h₀ k₃ one => ?_
  · rwa [same] at full
  refine ((addChannel_counts tab a₁ c₁ k₃).mono (fun _ _ => id) fun k' full => Or.inr ?_).bind
    fun h₁ k₄ two => ?_
  · have eq : k'.handleCount tab = k₃.handleCount tab := by rw [handleCount, handleCount, full.2]
    omega
  · change Prog.Post (linkPair tab h₀ h₁) k₄ _ _
    refine (Prog.Post.of_within (grows_linkPair h₀ h₁)).mono (fun _ k' grows => ?_)
      fun k' grows => Or.inr ?_
    · have most : k₄.handleCount tab ≤ k'.handleCount tab := grows.count
      omega
    · have most : k₄.handleCount tab ≤ k'.handleCount tab := grows.count
      omega

/-! ## A write that fails -/

/-- At most `n` handles leave the table. -/
def Loses (tab n : Nat) (k k' : Kernel) : Prop := k.handleCount tab ≤ k'.handleCount tab + n

theorem loses_of_tables (h : k'.tables = k.tables) (n : Nat) : Loses tab n k k' := by
  rw [Loses, handleCount, handleCount, h]
  exact Nat.le_add_right _ n

theorem Loses.trans {m n : Nat} {k'' : Kernel} (h : Loses tab m k k') (h' : Loses tab n k' k'') :
    Loses tab (m + n) k k'' := by
  unfold Loses at *
  omega

theorem Grows.loses (h : Grows tab k k') : Loses tab 0 k k' := h.count

theorem loses_removeTaken (tab' source : Nat) : Prog.Within (Loses tab 1) (removeTaken tab' source) := by
  intro k
  cases take : (k.tables tab').take? (·.value == source) with
  | none =>
    rw [removeTaken_none take]
    exact loses_of_tables rfl 1
  | some r =>
    obtain ⟨s, t⟩ := r
    rw [removeTaken_some take]
    have length := (Slots.take?_perm take).length_eq
    rw [Outcome.state_ok, Loses, handleCount, handleCount]
    by_cases own : tab = tab'
    · rw [own, setTable_tables_same]
      exact length.le
    · rw [setTable_tables_ne _ _ own]
      exact Nat.le_add_right _ 1

theorem grows_duplicateHandle (tab' h : Nat) : Prog.Within (Grows tab) (duplicateHandle tab' h 0) := by
  refine (within_findSlot tab' h 0).bind fun s => ?_
  cases duplicateObject s.object with
  | ok o => exact grows_addHandle tab' o s.rights
  | error e => exact .throw e

theorem loses_takeHandle (tab' h : Nat) : Prog.Within (Loses tab 1) (takeHandle tab' h) := by
  intro k
  have duplicate : Prog.Within (Grows tab) (duplicateHandle tab' h 0) := grows_duplicateHandle tab' h
  have duplicated := Prog.Post.of_within (s := k) duplicate
  have removed : ∀ source k₁, Grows tab k k₁ →
      Prog.Post (removeTaken tab' source) k₁ (fun _ => Loses tab 1 k) (Loses tab 1 k) := by
    intro source k₁ grows
    have remove : Prog.Within (Loses tab 1) (removeTaken tab' source) := loses_removeTaken tab' source
    have one := Prog.Post.of_within (s := k₁) remove
    exact one.mono (fun _ k' loses => grows.loses.trans loses) fun k' loses => grows.loses.trans loses
  have whole : Prog.Post (takeHandle tab' h) k (fun _ => Loses tab 1 k) (Loses tab 1 k) :=
    Prog.Post.attempt_bind duplicated (fun hv k₁ grows => removed hv k₁ grows)
      (fun e k₁ grows => removed h k₁ grows) fun k₁ grows => grows.loses.trans (loses_of_tables rfl 1)
  exact whole.state

theorem loses_stashHandles (tab' : Nat) (hs : List Nat) (i : Nat) (k : Kernel) :
    Prog.Post (stashHandles tab' cur hs i) k (fun _ => Loses tab hs.length k) fun _ => True := by
  induction hs generalizing i k with
  | nil => exact .pure (loses_of_tables rfl 0)
  | cons h hs ih =>
    have take : Prog.Within (Loses tab 1) (takeHandle tab' h) := loses_takeHandle tab' h
    have one := Prog.Post.of_within (s := k) take
    refine (one.mono (fun _ _ => id) fun _ _ => trivial).bind fun r k₁ loses => ?_
    have whole : ∀ k', Loses tab hs.length k₁ k' → Loses tab (h :: hs).length k k' := by
      intro k' later
      rw [List.length_cons, Nat.add_comm]
      exact loses.trans later
    cases r with
    | none => exact (ih i k₁).mono (fun _ k' later => whole k' later) fun _ => id
    | some x =>
      refine .modify_bind ((ih (i + 1) _).mono (fun _ k' later => whole k' later) fun _ => id)

/-- A write that fails takes no more handles out of any table than it was given. -/
theorem loses_channelWrite {self : Nat} {data : List UInt8} {hs : List Nat}
    (ran : channelWrite cur self data hs k = .err e k') : Loses tab (hs.take 2).length k k' := by
  have waits : ∀ {k₀ t}, k₀.tables = k.tables → k₀.thread? cur = some t →
      waitSender cur self data hs k₀ = .err e k' → Loses tab (hs.take 2).length k k' := by
    intro k₀ t same ht ran
    obtain ⟨k₁, k₂, cleared, bare, moved, rfl⟩ := waitSender_abandons ht ran
    have tables : k₁.tables = k.tables := (clearStash_tidied cleared).1.tables.trans same
    cases own : k₀.tableOf cur with
    | none =>
      rw [bare own]
      exact loses_of_tables tables _
    | some tab' =>
      obtain ⟨m, stashed, restored⟩ := moved tab' own
      have there : Loses tab (hs.take 2).length k₁ m :=
        (loses_stashHandles tab' (hs.take 2) 0 k₁).ok _ _ stashed
      have restore : Prog.Within (Grows tab) (restoreStash tab' cur [0, 1]) := grows_restoreStash tab' _
      have back := restore m
      rw [restored] at back
      have start : Loses tab 0 k k₁ := loses_of_tables tables 0
      have whole := (start.trans there).trans (Grows.loses back)
      rwa [Nat.zero_add] at whole
  rcases channelWrite_err ran with ⟨_, rfl⟩ | ⟨c, t, q, d, _, _, ht, _, _, late⟩
  · exact loses_of_tables rfl _
  · rcases late with ⟨_, ran⟩ | ⟨r, d', _, _, ran⟩
    · exact waits rfl ht ran
    · exact waits (show (k.setChan q (some d')).tables = k.tables from rfl) ht ran

/-! ## Creation and lookup -/

theorem lookupService_err (ran : lookupService (name.take serviceNameMax) k = .err e k') :
    k.Unknown name ∧ k' = k := by
  have short : ¬ (name.take serviceNameMax).length > serviceNameMax := by
    simp [List.length_take]
  have empty : name.take serviceNameMax = [] → name = [] := by
    cases name <;> simp [serviceNameMax]
  unfold lookupService at ran
  split_ifs at ran with bad
  · cases ran
    exact ⟨Or.inl (empty (bad.resolve_left short)), rfl⟩
  · cases found : k.registry.find? (·.name == name.take serviceNameMax) with
    | none =>
      rw [found] at ran
      cases ran
      exact ⟨Or.inr found, rfl⟩
    | some entry =>
      rw [found] at ran
      cases ran

theorem lookupService_ok {q : Nat} (ran : lookupService (name.take serviceNameMax) k = .ok q k') :
    ¬ k.Unknown name ∧ k' = k := by
  unfold lookupService at ran
  split_ifs at ran with bad
  cases found : k.registry.find? (·.name == name.take serviceNameMax) with
  | none =>
    rw [found] at ran
    cases ran
  | some entry =>
    rw [found] at ran
    cases ran
    refine ⟨?_, rfl⟩
    rintro (rfl | absent)
    · exact bad (Or.inr rfl)
    · rw [found] at absent
      cases absent

theorem createPair_unchanged_iff (ran : createPair tab a₀ a₁ k = .err e k') :
    SameHandles tab k k' ↔ (k.tables tab).Full := by
  rcases (createPair_counts tab a₀ a₁ k).err _ _ ran with ⟨full, tables⟩ | more
  · exact ⟨fun _ => full, fun _ => sameHandles_of_tables tables⟩
  · constructor
    · intro same
      have eq := same.count
      omega
    · intro full
      have most := k'.handleCount_le tab
      have all : k.handleCount tab = maxHandles := full
      omega

/-- What is stored before a lookup fails stays in the table. -/
theorem sysChannelLookup_err (ran : sysChannelLookup cur tab name a₀ a₁ k = .err e k') :
    k.Unknown name ∧ k' = k ∨ ¬ k.Unknown name ∧ (createPair tab a₀ a₁ k = .err e k' ∨
      k.handleCount tab + 1 ≤ k'.handleCount tab ∧ ¬ (k.tables tab).Full) := by
  rcases Prog.bind_eq_err ran with bad | ⟨service, k₁, found, rest⟩
  · exact Or.inl (lookupService_err bad)
  · obtain ⟨known, rfl⟩ := lookupService_ok found
    refine Or.inr ⟨known, ?_⟩
    rcases Prog.bind_eq_err rest with bad | ⟨⟨hClient, hServer⟩, k₂, created, rest⟩
    · exact Or.inl bad
    · simp only at rest
      have two := (createPair_counts tab a₀ a₁ k₁).ok _ _ created
      have room : ¬ (k₁.tables tab).Full := by
        intro full
        have all : k₁.handleCount tab = maxHandles := full
        have most := k₂.handleCount_le tab
        omega
      refine Or.inr ⟨?_, room⟩
      rcases Prog.bind_eq_err rest with bad | ⟨c, k₃, read, sends⟩
      · exact absurd bad (noErr_deref service _ _ _)
      · obtain ⟨_, rfl⟩ := deref_eq_ok read
        cases peer : c.peer with
        | none =>
          rw [peer] at sends
          cases sends
          omega
        | some q =>
          rw [peer] at sends
          rcases Prog.bind_eq_err sends with bad | ⟨result, k₄, _, last⟩
          · have lost : Loses tab 1 k₃ k' := loses_channelWrite bad
            unfold Loses at lost
            omega
          · cases result <;> cases last

/-- A creation or lookup that fails has left the handles of the caller as they were exactly if the table
was full, or nobody is registered under the name. -/
theorem failed_pair_unchanged_iff (k : Kernel) (cur tab : Nat) (name : List UInt8) (a₀ a₁ : Nat)
    (e : Status) (k' : Kernel) :
    (sysChannelCreate tab a₀ a₁ k = .err e k' → (SameHandles tab k k' ↔ (k.tables tab).Full)) ∧
      (sysChannelLookup cur tab name a₀ a₁ k = .err e k' →
        (SameHandles tab k k' ↔ (k.tables tab).Full ∨ k.Unknown name)) := by
  refine ⟨createPair_unchanged_iff, fun ran => ?_⟩
  rcases sysChannelLookup_err ran with ⟨unknown, rfl⟩ | ⟨known, failed | ⟨more, room⟩⟩
  · exact ⟨fun _ => Or.inr unknown, fun _ => sameHandles_of_tables rfl⟩
  · rw [createPair_unchanged_iff failed]
    exact ⟨Or.inl, fun h => h.resolve_right known⟩
  · constructor
    · intro same
      have eq := same.count
      omega
    · rintro (full | unknown)
      · exact absurd full room
      · exact absurd unknown known

/-- A service is registered at the endpoint 100, which has been closed since. -/
def demoClosedService : Kernel :=
  { (closeChannel 100 (demo (.port 9))).state with
    registry := ⟨some ⟨[110, 101, 116], 100⟩ :: List.replicate (maxServices - 1) none, rfl⟩ }

/-- A creation in a full table and a lookup of an unknown name leave the handles as they were. -/
theorem failed_pair_unchanged_iff_demo :
    (∃ k k', (k.tables 2).Full ∧ sysChannelCreate 2 300 400 k = .err .noMemory k' ∧
      SameHandles 2 k k') ∧
    ∃ k', sysChannelLookup 1 1 [110] 300 400 demoClosedService = .err .notFound k' ∧
      SameHandles 1 demoClosedService k' := by
  refine ⟨⟨(demo (.port 9)).setTable 2 ⟨List.replicate 12 (some ⟨0, 3, .port 8⟩), rfl⟩, _, by decide, rfl,
    ?_⟩, _, rfl, ?_⟩
  · exact ((failed_pair_unchanged_iff _ 1 2 [] 300 400 .noMemory _).1 rfl).mpr (by decide)
  · exact ((failed_pair_unchanged_iff _ 1 1 [110] 300 400 .notFound _).2 rfl).mpr
      (Or.inr (Or.inr (by decide)))

/-- With one free cell a creation fails and leaves a handle to the first endpoint behind; a lookup of a
service whose endpoint has been closed fails and leaves both handles behind. -/
theorem failed_pair_leaves_handles :
    (∃ k, sysChannelCreate 2 300 400 demoTight = .err .noMemory k ∧
      demoTight.handleCount 2 = 11 ∧ k.handleCount 2 = 12 ∧ ¬ SameHandles 2 demoTight k) ∧
    ∃ k, sysChannelLookup 1 1 [110, 101, 116] 300 400 demoClosedService = .err .peerClosed k ∧
      demoClosedService.handleCount 1 = 1 ∧ k.handleCount 1 = 3 ∧
      ¬ SameHandles 1 demoClosedService k := by
  refine ⟨⟨_, rfl, by decide, by decide, fun same => ?_⟩, _, rfl, by decide, by decide, fun same => ?_⟩
  · exact absurd same.count (by decide)
  · exact absurd same.count (by decide)

end Kernel

end CapsuleOS
