import CapsuleOS.Lib.Moves
import CapsuleOS.Ipc.Machine

/-!
# Where objects are held

A kernel object is held by a cell of a handle table or by a transfer slot of a thread. Transfer
takes it out of one place and puts it into another; the lemmas here say for each transfer loop that
it only moves objects around, as long as nothing it meets is duplicated or dropped: no handle it
takes denotes a VMO, and the table it fills has room.
-/
namespace CapsuleOS

open Lib

inductive Place where
  | table (tab cell : Nat)
  | stash (tid cell : Nat)
  deriving DecidableEq

def KernelObject.isVmo : KernelObject → Bool
  | .vmo _ => true
  | _ => false

def HandleSlot.content (s : HandleSlot) : KernelObject × Nat := (s.object, s.rights)

/-- The entries that the handle values of a message denote, each taken out of the table in turn. -/
def HandleTable.taken : HandleTable → List Nat → List HandleSlot
  | _, [] => []
  | t, h :: hs =>
    match t.take? (·.value == h) with
    | none => HandleTable.taken t hs
    | some (s, t') => s :: HandleTable.taken t' hs

namespace Kernel

def held (k : Kernel) : Place → Option (KernelObject × Nat)
  | .table tab i => ((k.tables tab).cells[i]?).join.map HandleSlot.content
  | .stash tid i => k.stashed tid i

/-- Nothing is moved: tables and transfer slots are what they were. -/
structure Untouched (k k' : Kernel) : Prop where
  tables : k'.tables = k.tables
  slots : ∀ tid, (k'.thread? tid).map Thread.ipcTransferSlots =
    (k.thread? tid).map Thread.ipcTransferSlots

variable {k k' : Kernel}

instance : Std.Refl Untouched := ⟨fun _ => ⟨rfl, fun _ => rfl⟩⟩

instance : IsTrans Kernel Untouched where
  trans _ _ _ h h' := ⟨h'.tables.trans h.tables, fun tid => (h'.slots tid).trans (h.slots tid)⟩

theorem stashed_of_slots {tid : Nat} (h : (k'.thread? tid).map Thread.ipcTransferSlots =
    (k.thread? tid).map Thread.ipcTransferSlots) (i : Nat) : k'.stashed tid i = k.stashed tid i := by
  have bind : ∀ o : Option Thread, (o.bind fun t => (t.ipcTransferSlots[i]?).join) =
      (o.map Thread.ipcTransferSlots).bind fun l => (l[i]?).join := by
    intro o
    cases o <;> rfl
  rw [stashed, stashed, bind, bind, h]

theorem Untouched.held (h : Untouched k k') : k'.held = k.held := by
  funext pl
  cases pl with
  | table tab i => simp only [Kernel.held, h.tables]
  | stash tid i => exact stashed_of_slots (h.slots tid) i

theorem Untouched.sizes (h : Untouched k k') (tid : Nat) :
    (k'.thread? tid).map (·.ipcTransferSlots.length) =
      (k.thread? tid).map (·.ipcTransferSlots.length) := by
  have same := congrArg (Option.map List.length) (h.slots tid)
  simpa [Option.map_map, Function.comp_def] using same

theorem Untouched.of_modify (k : Kernel) (tid : Nat) {f : Thread → Thread}
    (hf : ∀ t, (f t).id = t.id) (slots : ∀ t, (f t).ipcTransferSlots = t.ipcTransferSlots) :
    Untouched k (k.modifyThread tid f) where
  tables := rfl
  slots tid' := by
    rw [thread?_modifyThread _ hf]
    split_ifs
    · simp [Option.map_map, Function.comp_def, slots]
    · rfl

theorem Untouched.of_steady (steady : Steady k k') (tables : k'.tables = k.tables) :
    Untouched k k' where
  tables := tables
  slots tid := by
    cases ht : k.thread? tid with
    | none =>
      have same := steady tid
      rw [ht] at same
      rw [Option.map_eq_none_iff.mp same]
    | some t =>
      obtain ⟨s, ht'⟩ := steady.find ht
      rw [ht']
      rfl

theorem untouched_deliver (k : Kernel) (tid i hv : Nat) : Untouched k (deliver tid i hv k) :=
  .of_modify k tid (by intro; rfl) (by intro; rfl)

theorem untouched_setChan (k : Kernel) (p : Nat) (c : Option Channel) :
    Untouched k (k.setChan p c) := ⟨rfl, fun _ => rfl⟩

theorem untouched_enqueue (cur self : Nat) (c' : Channel) (call : Call) (k : Kernel) :
    Untouched k (enqueue cur self c' call k) :=
  IsTrans.trans _ _ _ (untouched_setChan k self (some c'))
    (.of_modify (k.setChan self (some c')) cur (by intro; rfl) (by intro; rfl))

theorem untouched_answerWaiter (w n : Nat) (k : Kernel) : Untouched k (answerWaiter w n k) := by
  have len : Untouched k (k.modifyThread w fun t => { t with ipcActualLen := n }) :=
    .of_modify k w (by intro; rfl) (by intro; rfl)
  have woken : Untouched _ (answerWaiter w n k) :=
    .of_steady (steady_wakeAll _ [w]) (wakeThread_tables _ w)
  exact IsTrans.trans _ _ _ len woken

/-- Dropping an object touches no table and no slot. -/
theorem untouched_dropObject (o : KernelObject) : Prog.Within Untouched (dropObject o) := by
  intro k
  refine .of_steady (steady_handles.dropObject o k) ?_
  have mm : ∀ {α : Type} (m : MmM α), (onMm m k).state.tables = k.tables := by
    intro α m
    unfold onMm Prog.zoom
    split <;> rfl
  cases o with
  | vmo v => exact mm _
  | vmar r => exact mm _
  | channel p =>
    simp only [dropObject, closeChannel, Prog.bind_apply, deref]
    cases hc : k.chans p with
    | none => rfl
    | some c =>
      simp only [shutEndpoint, Prog.modify_apply]
      cases c.peer with
      | none => simp
      | some q =>
        simp only [Prog.bind_apply, deref, wakeAll_chans]
        cases (k.setChan p (some c.shut)).chans q with
        | none => simp
        | some d => simp
  | port _ => rfl
  | process _ => rfl
  | thread _ => rfl

/-! ## Taking a handle out and putting one in -/

theorem held_setTable (k : Kernel) (tab i : Nat) {t : HandleTable} {v : Option HandleSlot}
    (h : t.cells = (k.tables tab).cells.set i v) (lt : i < (k.tables tab).cells.length) :
    (k.setTable tab t).held = Function.update k.held (.table tab i) (v.map HandleSlot.content) := by
  funext pl
  cases pl with
  | stash tid j =>
    rw [Function.update_of_ne (by simp)]
    rfl
  | table tab' j =>
    by_cases same : tab' = tab
    · subst same
      have cells : ((k.setTable tab' t).tables tab').cells = (k.tables tab').cells.set i v := by
        simp [setTable, h]
      by_cases cell : j = i
      · subst cell
        simp [held, cells, lt]
      · rw [Function.update_of_ne (by simp [cell])]
        simp [held, cells, Ne.symm cell]
    · rw [Function.update_of_ne (by simp [same])]
      simp [held, setTable, same]

theorem held_table {tab i : Nat} {v : Option HandleSlot} (h : (k.tables tab).cells[i]? = some v) :
    k.held (.table tab i) = v.map HandleSlot.content := by simp [held, h]

/-- The entry `s` has been taken out of a table. -/
structure Took (tab h : Nat) (s : HandleSlot) (k k' : Kernel) : Prop where
  cell : ∃ i, k.held (.table tab i) = some s.content ∧
    k'.held = Function.update k.held (.table tab i) none
  table : (k.tables tab).take? (·.value == h) = some (s, k'.tables tab)
  others : ∀ tab', tab' ≠ tab → k'.tables tab' = k.tables tab'
  chans : k'.chans = k.chans
  threads : k'.thread? = k.thread?

/-- An object has been put into a table. -/
structure Put (tab : Nat) (x : KernelObject × Nat) (k k' : Kernel) : Prop where
  cell : ∃ i, k.held (.table tab i) = none ∧
    k'.held = Function.update k.held (.table tab i) (some x)
  table : ∃ v, (k'.tables tab).occupants.Perm (⟨v, x.2, x.1⟩ :: (k.tables tab).occupants)
  others : ∀ tab', tab' ≠ tab → k'.tables tab' = k.tables tab'
  chans : k'.chans = k.chans
  threads : k'.thread? = k.thread?

theorem setTable_tables_same (k : Kernel) (tab : Nat) (t : HandleTable) :
    (k.setTable tab t).tables tab = t := by simp [setTable]

theorem setTable_tables_ne (k : Kernel) {tab tab' : Nat} (t : HandleTable) (ne : tab' ≠ tab) :
    (k.setTable tab t).tables tab' = k.tables tab' := by simp [setTable, ne]

theorem takeHandle_none {tab h : Nat} (none : (k.tables tab).take? (·.value == h) = none) :
    takeHandle tab h k = .ok Option.none k := by
  have find := Slots.take?_eq_none.mp none
  simp [takeHandle, duplicateHandle, findSlot, removeWithRights, Prog.bind_apply, Prog.attempt,
    find, none]

theorem takeHandle_some {tab h : Nat} {s : HandleSlot} {t : HandleTable}
    (take : (k.tables tab).take? (·.value == h) = some (s, t)) (plain : s.object.isVmo = false) :
    ∃ k', takeHandle tab h k = .ok (some s.content) k' ∧ Took tab h s k k' := by
  refine ⟨k.setTable tab t, ?_, ?_⟩
  · have find := Slots.take?_find take
    have single : duplicateObject s.object = .error .notAllowed := by
      cases ho : s.object <;> simp [ho, KernelObject.isVmo] at plain <;> rfl
    simp [takeHandle, duplicateHandle, findSlot, removeWithRights, Prog.bind_apply, Prog.attempt,
      find, take, checkRights, single, HandleSlot.content]
  · obtain ⟨i, full, cells⟩ := Slots.take?_set take
    refine ⟨⟨i, held_table full, ?_⟩, ?_, fun tab' ne => setTable_tables_ne k t ne, rfl, rfl⟩
    · exact held_setTable k tab i cells (List.getElem?_eq_some_iff.mp full).1
    · rw [setTable_tables_same, take]

def bumpHandleValue (k : Kernel) : Kernel :=
  { k with handleValueCounter := (k.handleValueCounter + 1) % 2 ^ 32 }

/-- Adding to a table with room. -/
theorem addHandle_room (tab : Nat) (o : KernelObject) (rights : Nat)
    (room : (k.tables tab).occupants.length < maxHandles) :
    ∃ t, (k.tables tab).insert? ⟨k.handleValueCounter, rights, o⟩ = some t ∧
      addHandle tab o rights k = .ok k.handleValueCounter (k.bumpHandleValue.setTable tab t) := by
  cases ins : (k.tables tab).insert? ⟨k.handleValueCounter, rights, o⟩ with
  | none =>
    have full : (k.tables tab).occupants.length = maxHandles := Slots.insert?_eq_none.mp ins
    omega
  | some t =>
    exact ⟨t, rfl, by simp [addHandle, nextHandleValue, putSlot, Prog.bind_apply, ins, bumpHandleValue]⟩

theorem addHandle_put {tab : Nat} (x : KernelObject × Nat)
    (room : (k.tables tab).occupants.length < maxHandles) :
    ∃ hv k', addHandle tab x.1 x.2 k = .ok hv k' ∧ Put tab x k k' := by
  obtain ⟨t, ins, ran⟩ := addHandle_room tab x.1 x.2 room
  obtain ⟨i, free, cells⟩ := Slots.insert?_set ins
  refine ⟨k.handleValueCounter, k.bumpHandleValue.setTable tab t, ran, ⟨i, held_table free, ?_⟩,
    ⟨k.handleValueCounter, ?_⟩, fun tab' ne => setTable_tables_ne k.bumpHandleValue t ne, rfl, rfl⟩
  · exact held_setTable k.bumpHandleValue tab i cells (List.getElem?_eq_some_iff.mp free).1
  · rw [setTable_tables_same]
    exact Slots.insert?_perm ins

/-- Writing a transfer slot; emptying one needs no thread behind it. -/
theorem held_setStash (tid i : Nat) {o : Option (KernelObject × Nat)}
    (fits : o = none ∨ ∃ t, k.thread? tid = some t ∧ i < t.ipcTransferSlots.length) :
    (setStash tid i o k).held = Function.update k.held (.stash tid i) o := by
  funext pl
  cases pl with
  | table tab j =>
    rw [Function.update_of_ne (by simp)]
    rfl
  | stash tid' j =>
    by_cases same : tid' = tid ∧ j = i
    · obtain ⟨rfl, rfl⟩ := same
      rw [Function.update_self]
      simp only [held, stashed, setStash_thread?, if_pos]
      cases ht : k.thread? tid' with
      | none =>
        rcases fits with rfl | ⟨t, ht', _⟩
        · rfl
        · rw [ht] at ht'
          cases ht'
      | some t =>
        by_cases lt : j < t.ipcTransferSlots.length
        · simp [lt]
        · rcases fits with rfl | ⟨t', ht', lt'⟩
          · simp [lt]
          · rw [ht] at ht'
            cases ht'
            exact absurd lt' lt
    · rw [Function.update_of_ne (by simpa using same)]
      simp only [held, stashed, setStash_thread?]
      split_ifs with eq
      · have ne : i ≠ j := fun h => same ⟨eq, h.symm⟩
        cases k.thread? tid' <;> simp [ne]
      · rfl

theorem setStash_slots (tid i : Nat) (o : Option (KernelObject × Nat)) (k : Kernel) (tid' : Nat) :
    ((setStash tid i o k).thread? tid').map (·.ipcTransferSlots.length) =
      (k.thread? tid').map (·.ipcTransferSlots.length) := by
  rw [setStash_thread?]
  split_ifs
  · simp [Option.map_map, Function.comp_def]
  · rfl

/-! ## The transfer loops -/

/-- The table holds this object with these rights. -/
def InTable (k : Kernel) (tab : Nat) (x : KernelObject × Nat) : Prop :=
  ∃ i, k.held (.table tab i) = some x

/-- What the loops leave alone. -/
structure Fixed (k k' : Kernel) : Prop where
  chans : k'.chans = k.chans
  sizes : ∀ tid, (k'.thread? tid).map (·.ipcTransferSlots.length) =
    (k.thread? tid).map (·.ipcTransferSlots.length)

instance : Std.Refl Fixed := ⟨fun _ => ⟨rfl, fun _ => rfl⟩⟩

instance : IsTrans Kernel Fixed where
  trans _ _ _ h h' := ⟨h'.chans.trans h.chans, fun tid => (h'.sizes tid).trans (h.sizes tid)⟩

theorem Fixed.of_threads (chans : k'.chans = k.chans) (threads : k'.thread? = k.thread?) :
    Fixed k k' := ⟨chans, fun tid => by rw [threads]⟩

theorem Fixed.of_untouched (chans : k'.chans = k.chans) (h : Untouched k k') : Fixed k k' :=
  ⟨chans, h.sizes⟩

theorem fixed_setStash (tid i : Nat) (o : Option (KernelObject × Nat)) (k : Kernel) :
    Fixed k (setStash tid i o k) := ⟨rfl, setStash_slots tid i o k⟩

theorem fixed_deliver (tid i hv : Nat) (k : Kernel) : Fixed k (deliver tid i hv k) :=
  .of_untouched rfl (untouched_deliver k tid i hv)

theorem Took.fixed {tab h : Nat} {s : HandleSlot} (took : Took tab h s k k') : Fixed k k' :=
  .of_threads took.chans took.threads

theorem Put.fixed {tab : Nat} {x : KernelObject × Nat} (put : Put tab x k k') : Fixed k k' :=
  .of_threads put.chans put.threads

theorem Put.length {tab : Nat} {x : KernelObject × Nat} (put : Put tab x k k') :
    (k'.tables tab).occupants.length = (k.tables tab).occupants.length + 1 := by
  obtain ⟨v, perm⟩ := put.table
  simpa using perm.length_eq

theorem Took.length {tab h : Nat} {s : HandleSlot} (took : Took tab h s k k') :
    (k.tables tab).occupants.length = (k'.tables tab).occupants.length + 1 := by
  simpa using (Slots.take?_perm took.table).length_eq

/-- Out of a table and into a table. -/
theorem Took.carried {tab rtab h : Nat} {s : HandleSlot} {k'' : Kernel} (took : Took tab h s k k')
    (put : Put rtab s.content k' k'') :
    ∃ i j, Carried (.table tab i) (.table rtab j) s.content k.held k''.held := by
  obtain ⟨i, source, result⟩ := took.cell
  obtain ⟨j, free, result'⟩ := put.cell
  exact ⟨i, j, source, by rw [← result, free], by rw [result', result]⟩

/-- Places in one of the two tables. -/
def tablePlaces (tab rtab : Nat) : Set Place := fun pl => ∃ i, pl = .table tab i ∨ pl = .table rtab i

structure Injected (tab rtab : Nat) (msg : List HandleSlot) (k k' : Kernel) : Prop where
  moved : Moved (tablePlaces tab rtab) k.held k'.held
  arrived : rtab ≠ tab → ∀ s ∈ msg, k'.InTable rtab s.content
  kept : ∀ x, k.InTable rtab x → k'.InTable rtab x
  fixed : Fixed k k'

theorem taken_cons {t t' : HandleTable} {h : Nat} {s : HandleSlot} (hs : List Nat)
    (take : t.take? (·.value == h) = some (s, t')) : t.taken (h :: hs) = s :: t'.taken hs := by
  rw [HandleTable.taken, take]

theorem taken_skip {t : HandleTable} {h : Nat} (hs : List Nat)
    (take : t.take? (·.value == h) = none) : t.taken (h :: hs) = t.taken hs := by
  rw [HandleTable.taken, take]

theorem keeps_of_carried {tab rtab i j : Nat} {x y : KernelObject × Nat}
    (c : Carried (.table tab i) (.table rtab j) x k.held k'.held) (h : k.InTable rtab y) :
    k'.InTable rtab y := by
  obtain ⟨m, hm⟩ := h
  by_cases eq : Place.table rtab m = .table tab i
  · rw [eq, c.source] at hm
    cases hm
    exact ⟨j, c.arrives⟩
  · exact ⟨m, c.stays hm eq⟩

/-- One round of `injectHandles`: the entry `s` goes from one table to the other. -/
theorem inject_one {tab h : Nat} (rtab : Nat) {s : HandleSlot} {t : HandleTable}
    (take : (k.tables tab).take? (·.value == h) = some (s, t)) (plain : s.object.isVmo = false)
    (room : rtab = tab ∨ (k.tables rtab).occupants.length < maxHandles) :
    ∃ k₁ hv k₂, takeHandle tab h k = .ok (some s.content) k₁ ∧
      addHandle rtab s.object s.rights k₁ = .ok hv k₂ ∧
      (∃ i j, Carried (.table tab i) (.table rtab j) s.content k.held k₂.held) ∧ Fixed k k₂ ∧
      (∀ s' ∈ (k₂.tables tab).occupants, s' ∈ (k.tables tab).occupants ∨ s'.object = s.object) ∧
      (rtab ≠ tab → k₂.tables tab = t ∧
        (k₂.tables rtab).occupants.length = (k.tables rtab).occupants.length + 1) := by
  obtain ⟨k₁, ran₁, took⟩ := takeHandle_some take plain
  have left : k₁.tables tab = t := by
    have eq := took.table
    rw [take] at eq
    cases eq
    rfl
  have sub : ∀ s' ∈ (k₁.tables tab).occupants, s' ∈ (k.tables tab).occupants := fun s' mem =>
    (Slots.take?_perm took.table).symm.subset (List.mem_cons_of_mem _ mem)
  have room₁ : (k₁.tables rtab).occupants.length < maxHandles := by
    by_cases same : rtab = tab
    · subst same
      have := took.length
      have := (k.tables rtab).occupants_length_le
      omega
    · rw [took.others rtab same]
      exact room.resolve_left same
  obtain ⟨hv, k₂, ran₂, put⟩ := addHandle_put s.content room₁
  refine ⟨k₁, hv, k₂, ran₁, ran₂, took.carried put, IsTrans.trans _ _ _ took.fixed put.fixed,
    fun s' mem => ?_, fun ne => ⟨?_, ?_⟩⟩
  · by_cases same : tab = rtab
    · subst same
      obtain ⟨v, perm⟩ := put.table
      rcases List.mem_cons.mp (perm.subset mem) with rfl | old
      · exact Or.inr rfl
      · exact Or.inl (sub s' old)
    · rw [put.others tab same] at mem
      exact Or.inl (sub s' mem)
  · rw [put.others tab (Ne.symm ne), left]
  · rw [put.length, took.others rtab ne]

theorem mem_of_take {t t' : HandleTable} {h : Nat} {s : HandleSlot}
    (take : t.take? (·.value == h) = some (s, t')) : s ∈ t.occupants ∧ s.value = h := by
  refine ⟨(Slots.take?_perm take).symm.subset List.mem_cons_self, ?_⟩
  have found := Slots.take?_find take
  rw [Slots.find?_eq] at found
  simpa using List.find?_some found

theorem injectHandles_moves {tab rtab receiver : Nat} (hs : List Nat) (hIdx : Nat)
    (plain : ∀ s ∈ (k.tables tab).occupants, s.value ∈ hs → s.object.isVmo = false)
    (room : rtab = tab ∨ (k.tables rtab).occupants.length + ((k.tables tab).taken hs).length ≤
      maxHandles) :
    ∃ k', injectHandles tab rtab receiver hs hIdx k = .ok () k' ∧
      Injected tab rtab ((k.tables tab).taken hs) k k' := by
  induction hs generalizing hIdx k with
  | nil =>
    exact ⟨k, rfl, ⟨.refl _ _, fun _ _ mem => absurd mem List.not_mem_nil, fun _ => id, Std.Refl.refl k⟩⟩
  | cons h hs ih =>
    cases take : (k.tables tab).take? (·.value == h) with
    | none =>
      rw [taken_skip hs take] at room ⊢
      obtain ⟨k', ran, inj⟩ := ih hIdx (fun s mem val => plain s mem (List.mem_cons_of_mem _ val)) room
      refine ⟨k', ?_, inj⟩
      rw [injectHandles, Prog.bind_ok (takeHandle_none take)]
      exact ran
    | some r =>
      obtain ⟨s, t⟩ := r
      rw [taken_cons hs take] at room ⊢
      obtain ⟨mem, val⟩ := mem_of_take take
      have single := plain s mem (by simp [val])
      obtain ⟨k₁, hv, k₂, ran₁, ran₂, ⟨i, j, carried⟩, fixed, sub, apart⟩ :=
        inject_one rtab take single (room.imp_right fun r => by simp at r; omega)
      have still : Untouched k₂ (deliver receiver hIdx hv k₂) := untouched_deliver k₂ _ _ _
      rw [← still.held] at carried
      have plain' : ∀ s' ∈ (k₂.tables tab).occupants, s'.value ∈ hs → s'.object.isVmo = false := by
        intro s' mem' val'
        rcases sub s' mem' with old | eq
        · exact plain s' old (List.mem_cons_of_mem _ val')
        · rw [eq, single]
      have room' : rtab = tab ∨ (k₂.tables rtab).occupants.length + ((k₂.tables tab).taken hs).length ≤
          maxHandles := by
        by_cases same : rtab = tab
        · exact Or.inl same
        · obtain ⟨left, count⟩ := apart same
          have fits := room.resolve_left same
          rw [left, count]
          simp at fits
          exact Or.inr (by omega)
      obtain ⟨k', ran, inj⟩ := ih (k := deliver receiver hIdx hv k₂) (hIdx + 1) plain' room'
      refine ⟨k', ?_, ⟨?_, fun ne s' mem' => ?_, fun x old => inj.kept x (keeps_of_carried carried old), ?_⟩⟩
      · rw [injectHandles, Prog.bind_ok ran₁]
        simp only [HandleSlot.content, Prog.attempt, Prog.bind_apply, ran₂]
        exact ran
      · exact Moved.trans (carried.moved ⟨i, Or.inl rfl⟩ ⟨j, Or.inr rfl⟩) inj.moved
      · rcases List.mem_cons.mp mem' with rfl | later
        · exact inj.kept _ ⟨j, carried.arrives⟩
        · refine inj.arrived ne s' ?_
          rw [show (deliver receiver hIdx hv k₂).tables tab = t from (apart ne).1]
          exact later
      · exact IsTrans.trans _ _ _ fixed
          (IsTrans.trans _ _ _ (fixed_deliver receiver hIdx hv k₂) inj.fixed)

theorem taken_subset (t : HandleTable) (hs : List Nat) : ∀ s ∈ t.taken hs, s ∈ t.occupants := by
  induction hs generalizing t with
  | nil => exact fun s mem => absurd mem List.not_mem_nil
  | cons h hs ih =>
    cases take : t.take? (·.value == h) with
    | none =>
      rw [taken_skip hs take]
      exact ih t
    | some r =>
      obtain ⟨s, t'⟩ := r
      have perm := Slots.take?_perm take
      rw [taken_cons hs take]
      intro s' mem
      rcases List.mem_cons.mp mem with rfl | later
      · exact perm.symm.subset List.mem_cons_self
      · exact perm.symm.subset (List.mem_cons_of_mem _ (ih t' s' later))

theorem taken_length_le (t : HandleTable) (hs : List Nat) : (t.taken hs).length ≤ hs.length := by
  induction hs generalizing t with
  | nil => exact Nat.le_refl _
  | cons h hs ih =>
    cases take : t.take? (·.value == h) with
    | none =>
      rw [taken_skip hs take]
      exact (ih t).trans (Nat.le_succ _)
    | some r =>
      rw [taken_cons hs take]
      exact Nat.succ_le_succ (ih r.2)

theorem inTable_of_mem {tab : Nat} {s : HandleSlot} (h : s ∈ (k.tables tab).occupants) :
    k.InTable tab s.content := by
  obtain ⟨i, hi⟩ := List.mem_iff_getElem?.mp (Cells.mem_occupants.mp h)
  exact ⟨i, held_table hi⟩

/-- The entries of a message arrive; within one table they never leave. -/
theorem Injected.all_arrived {tab rtab : Nat} {hs : List Nat}
    (inj : Injected tab rtab ((k.tables tab).taken hs) k k') :
    ∀ s ∈ (k.tables tab).taken hs, k'.InTable rtab s.content := by
  intro s mem
  by_cases same : rtab = tab
  · subst same
    exact inj.kept _ (inTable_of_mem (taken_subset _ _ s mem))
  · exact inj.arrived same s mem

/-- Places in the table or among the transfer slots of the thread. -/
def stashPlaces (tab tid : Nat) : Set Place := fun pl => ∃ i, pl = .table tab i ∨ pl = .stash tid i

structure Stashed (tab cur hIdx : Nat) (msg : List HandleSlot) (k k' : Kernel) : Prop where
  moved : Moved (stashPlaces tab cur) k.held k'.held
  slots : ∀ j, k'.stashed cur (hIdx + j) = (msg[j]?).map HandleSlot.content
  before : ∀ i, i < hIdx → k'.stashed cur i = k.stashed cur i
  length : (k'.tables tab).occupants.length + msg.length = (k.tables tab).occupants.length
  fixed : Fixed k k'

/-- One round of `stashHandles`. -/
theorem stash_one {tab h cur hIdx : Nat} {s : HandleSlot} {t : HandleTable}
    (take : (k.tables tab).take? (·.value == h) = some (s, t)) (plain : s.object.isVmo = false)
    (size : (k.thread? cur).map (·.ipcTransferSlots.length) = some 2) (lt : hIdx < 2)
    (free : k.stashed cur hIdx = none) :
    ∃ k₁, takeHandle tab h k = .ok (some s.content) k₁ ∧
      (∃ i, Carried (.table tab i) (.stash cur hIdx) s.content k.held
        (setStash cur hIdx (some s.content) k₁).held) ∧
      Fixed k (setStash cur hIdx (some s.content) k₁) ∧ k₁.tables tab = t := by
  obtain ⟨k₁, ran₁, took⟩ := takeHandle_some take plain
  obtain ⟨i, source, result⟩ := took.cell
  obtain ⟨u, hu, len⟩ := Option.map_eq_some_iff.mp size
  have put := held_setStash (k := k₁) (o := some s.content) cur hIdx
    (Or.inr ⟨u, by rw [took.threads, hu], by omega⟩)
  refine ⟨k₁, ran₁, ⟨i, source, ?_, ?_⟩, ?_, ?_⟩
  · rw [Function.update_of_ne (by simp)]
    exact free
  · rw [put, result]
  · exact IsTrans.trans _ _ _ took.fixed (fixed_setStash cur hIdx _ k₁)
  · have eq := took.table
    rw [take] at eq
    cases eq
    rfl

theorem stashHandles_moves {tab cur : Nat} (hs : List Nat) (hIdx : Nat)
    (plain : ∀ s ∈ (k.tables tab).occupants, s.value ∈ hs → s.object.isVmo = false)
    (size : (k.thread? cur).map (·.ipcTransferSlots.length) = some 2) (fits : hIdx + hs.length ≤ 2)
    (free : ∀ j, k.stashed cur (hIdx + j) = none) :
    ∃ k', stashHandles tab cur hs hIdx k = .ok () k' ∧
      Stashed tab cur hIdx ((k.tables tab).taken hs) k k' := by
  induction hs generalizing hIdx k with
  | nil => exact ⟨k, rfl, ⟨.refl _ _, free, fun _ _ => rfl, rfl, Std.Refl.refl k⟩⟩
  | cons h hs ih =>
    simp only [List.length_cons] at fits
    cases take : (k.tables tab).take? (·.value == h) with
    | none =>
      rw [taken_skip hs take]
      obtain ⟨k', ran, st⟩ := ih hIdx (fun s mem val => plain s mem (List.mem_cons_of_mem _ val)) size
        (by omega) free
      refine ⟨k', ?_, st⟩
      rw [stashHandles, Prog.bind_ok (takeHandle_none take)]
      exact ran
    | some r =>
      obtain ⟨s, t⟩ := r
      rw [taken_cons hs take]
      obtain ⟨mem, val⟩ := mem_of_take take
      obtain ⟨k₁, ran₁, ⟨i, carried⟩, fixed, left⟩ := stash_one take (plain s mem (by simp [val])) size
        (by omega) (free 0)
      set k₂ := setStash cur hIdx (some s.content) k₁
      have table : k₂.tables tab = t := left
      have perm := Slots.take?_perm take
      have elsewhere : ∀ i, i ≠ hIdx → k₂.stashed cur i = k.stashed cur i := fun i ne =>
        carried.elsewhere (p := .stash cur i) (by simp) (by simpa using ne)
      obtain ⟨k', ran, st⟩ := ih (k := k₂) (hIdx + 1)
        (fun s' mem' val' => plain s' (perm.symm.subset (List.mem_cons_of_mem _ (table ▸ mem')))
          (List.mem_cons_of_mem _ val'))
        ((fixed.sizes cur).trans size) (by omega)
        (fun j => by
          rw [elsewhere _ (by omega), Nat.add_assoc]
          exact free (1 + j))
      rw [table] at st
      refine ⟨k', ?_, ⟨?_, fun j => ?_, fun i lt => ?_, ?_, ?_⟩⟩
      · rw [stashHandles, Prog.bind_ok ran₁]
        exact ran
      · exact Moved.trans (carried.moved ⟨i, Or.inl rfl⟩ ⟨hIdx, Or.inr rfl⟩) st.moved
      · cases j with
        | zero =>
          rw [Nat.add_zero, st.before hIdx (by omega)]
          exact carried.arrives
        | succ j =>
          rw [show hIdx + (j + 1) = hIdx + 1 + j by omega, st.slots j]
          rfl
      · rw [st.before i (by omega), elsewhere i (by omega)]
      · have count := perm.length_eq
        have later := st.length
        rw [table] at later
        simp only [List.length_cons] at count ⊢
        omega
      · exact IsTrans.trans _ _ _ fixed st.fixed

structure Unstashed (tab src : Nat) (cells : List Nat) (k k' : Kernel) : Prop where
  moved : Moved (stashPlaces tab src) k.held k'.held
  arrived : ∀ i ∈ cells, ∀ x, k.stashed src i = some x → k'.InTable tab x
  emptied : ∀ i, i ∈ cells ∨ k.stashed src i = none → k'.stashed src i = none
  kept : ∀ x, k.InTable tab x → k'.InTable tab x
  fixed : Fixed k k'

/-- What is in the given transfer slots of a thread. -/
def loaded (k : Kernel) (src : Nat) (cells : List Nat) : List (KernelObject × Nat) :=
  cells.filterMap (k.stashed src)

/-- One stashed object goes to a table. -/
theorem unstash_one (tab : Nat) {src i : Nat} {x : KernelObject × Nat} (stash : k.stashed src i = some x)
    (room : (k.tables tab).occupants.length < maxHandles) :
    ∃ hv k₁, addHandle tab x.1 x.2 (setStash src i none k) = .ok hv k₁ ∧
      (∃ j, Carried (.stash src i) (.table tab j) x k.held k₁.held) ∧ Fixed k k₁ ∧
      (k₁.tables tab).occupants.length = (k.tables tab).occupants.length + 1 := by
  have taken := held_setStash (k := k) (o := none) src i (Or.inl rfl)
  obtain ⟨hv, k₁, ran, put⟩ := addHandle_put (k := setStash src i none k) x room
  obtain ⟨j, free, result⟩ := put.cell
  refine ⟨hv, k₁, ran, ⟨j, stash, ?_, ?_⟩, ?_, put.length⟩
  · rw [← taken, free]
  · rw [result, taken]
  · exact IsTrans.trans _ _ _ (fixed_setStash src i none k) put.fixed

/-- A round and the rest of the loop. -/
theorem Unstashed.cons {tab src i j : Nat} {cells : List Nat} {x : KernelObject × Nat}
    {k₁ k₂ : Kernel} (carried : Carried (.stash src i) (.table tab j) x k.held k₁.held)
    (fixed : Fixed k k₁) (still : Untouched k₁ k₂) (chans : k₂.chans = k₁.chans)
    (rest : Unstashed tab src cells k₂ k') : Unstashed tab src (i :: cells) k k' := by
  have next := Fixed.of_untouched chans still
  rw [← still.held] at carried
  have gone : k₂.stashed src i = none := carried.leaves (by simp)
  have elsewhere : ∀ m, m ≠ i → k₂.stashed src m = k.stashed src m := fun m ne =>
    carried.elsewhere (p := .stash src m) (by simpa using ne) (by simp)
  have keep : ∀ y, k.InTable tab y → k₂.InTable tab y := by
    rintro y ⟨m, hm⟩
    exact ⟨m, carried.stays hm (by simp)⟩
  refine ⟨Moved.trans (carried.moved ⟨i, Or.inr rfl⟩ ⟨j, Or.inl rfl⟩) rest.moved, fun m mem y hy => ?_,
    fun m h => ?_, fun y hy => rest.kept y (keep y hy),
    IsTrans.trans _ _ _ fixed (IsTrans.trans _ _ _ next rest.fixed)⟩
  · by_cases eq : m = i
    · subst eq
      have same : some y = some x := hy.symm.trans carried.source
      cases same
      exact rest.kept _ ⟨j, carried.arrives⟩
    · have later : m ∈ cells := (List.mem_cons.mp mem).resolve_left eq
      exact rest.arrived m later y ((elsewhere m eq).trans hy)
  · by_cases eq : m = i
    · subst eq
      exact rest.emptied m (Or.inr gone)
    · refine rest.emptied m (h.imp (fun mem => (List.mem_cons.mp mem).resolve_left eq) fun none => ?_)
      rw [elsewhere m eq, none]

theorem Unstashed.skip {tab src i : Nat} {cells : List Nat} (none : k.stashed src i = none)
    (rest : Unstashed tab src cells k k') : Unstashed tab src (i :: cells) k k' := by
  refine ⟨rest.moved, fun m mem y hy => ?_, fun m h => ?_, rest.kept, rest.fixed⟩
  · rcases List.mem_cons.mp mem with rfl | later
    · rw [none] at hy
      cases hy
    · exact rest.arrived m later y hy
  · refine rest.emptied m (h.elim (fun mem => ?_) Or.inr)
    rcases List.mem_cons.mp mem with rfl | later
    · exact Or.inr none
    · exact Or.inl later

theorem Unstashed.nil (tab src : Nat) (k : Kernel) : Unstashed tab src [] k k :=
  ⟨.refl _ _, fun _ mem => absurd mem List.not_mem_nil, fun _ h => h.resolve_left List.not_mem_nil,
    fun _ => id, Std.Refl.refl k⟩

/-- The rest of the cells is loaded as before once one of them has been emptied. -/
theorem loaded_rest {tab src i j : Nat} {cells : List Nat} {x : KernelObject × Nat} {k₁ : Kernel}
    (carried : Carried (.stash src i) (.table tab j) x k.held k₁.held) (out : i ∉ cells) :
    k₁.loaded src cells = k.loaded src cells := by
  refine List.filterMap_congr fun m mem => ?_
  have ne : m ≠ i := by
    rintro rfl
    exact out mem
  exact carried.elsewhere (p := .stash src m) (by simpa using ne) (by simp)

theorem loaded_cons {src i : Nat} {x : KernelObject × Nat} (cells : List Nat)
    (h : k.stashed src i = some x) : k.loaded src (i :: cells) = x :: k.loaded src cells := by
  simp [loaded, h]

theorem loaded_skip {src i : Nat} (cells : List Nat) (h : k.stashed src i = none) :
    k.loaded src (i :: cells) = k.loaded src cells := by simp [loaded, h]

theorem receiveStash_moves {tab cur src : Nat} {cells : List Nat} (hIdx : Nat) (nodup : cells.Nodup)
    (room : (k.tables tab).occupants.length + (k.loaded src cells).length ≤ maxHandles) :
    ∃ k', receiveStash tab cur src cells hIdx k = .ok () k' ∧ Unstashed tab src cells k k' := by
  induction cells generalizing hIdx k with
  | nil => exact ⟨k, rfl, .nil _ _ k⟩
  | cons i cells ih =>
    obtain ⟨out, nodup⟩ := List.nodup_cons.mp nodup
    rw [receiveStash, Prog.bind_ok (Prog.get_apply k)]
    cases stash : k.stashed src i with
    | none =>
      rw [loaded_skip cells stash] at room
      obtain ⟨k', ran, un⟩ := ih hIdx nodup room
      exact ⟨k', ran, un.skip stash⟩
    | some x =>
      rw [loaded_cons cells stash, List.length_cons] at room
      obtain ⟨hv, k₁, ran₁, ⟨j, carried⟩, fixed, count⟩ :=
        unstash_one tab stash (by omega)
      have still := untouched_deliver k₁ cur hIdx hv
      have loaded₁ : (deliver cur hIdx hv k₁).loaded src cells = k.loaded src cells :=
        loaded_rest (still.held ▸ carried) out
      obtain ⟨k', ran, un⟩ := ih (k := deliver cur hIdx hv k₁) (hIdx + 1) nodup (by
        rw [loaded₁, show (deliver cur hIdx hv k₁).tables = k₁.tables from rfl, count]
        omega)
      refine ⟨k', ?_, .cons carried fixed still rfl un⟩
      simp only [Prog.attempt, Prog.bind_apply, Prog.modify_apply, ran₁]
      exact ran

theorem restoreStash_moves {tab cur : Nat} {cells : List Nat} (nodup : cells.Nodup)
    (room : (k.tables tab).occupants.length + (k.loaded cur cells).length ≤ maxHandles) :
    ∃ k', restoreStash tab cur cells k = .ok () k' ∧ Unstashed tab cur cells k k' := by
  induction cells generalizing k with
  | nil => exact ⟨k, rfl, .nil _ _ k⟩
  | cons i cells ih =>
    obtain ⟨out, nodup⟩ := List.nodup_cons.mp nodup
    rw [restoreStash, Prog.bind_ok (Prog.get_apply k)]
    cases stash : k.stashed cur i with
    | none =>
      rw [loaded_skip cells stash] at room
      obtain ⟨k', ran, un⟩ := ih nodup room
      exact ⟨k', ran, un.skip stash⟩
    | some x =>
      rw [loaded_cons cells stash, List.length_cons] at room
      obtain ⟨hv, k₁, ran₁, ⟨j, carried⟩, fixed, count⟩ := unstash_one tab stash (by omega)
      obtain ⟨k', ran, un⟩ := ih (k := k₁) nodup (by
        rw [loaded_rest carried out, count]
        omega)
      refine ⟨k', ?_, .cons carried fixed (Std.Refl.refl k₁) rfl un⟩
      simp only [Prog.attempt, Prog.bind_apply, Prog.modify_apply, ran₁]
      exact ran

end Kernel

end CapsuleOS
