import CapsuleOS.Ipc.Custody
import CapsuleOS.Ipc.Machine

/-!
# The values of handles

A value is drawn from one counter of 32 bits for all tables, or given by the launcher of a service for
the empty table of the new process. Nothing checks that it is not in use. The machine of this module
makes the calls of the handle tables in any order, with anything in between that leaves the tables
alone.

As long as no value is drawn for a table that has it already, the values of a table are distinct, and
a value leads to the cell that it was given out for.
-/
namespace CapsuleOS

open Lib

namespace Kernel

/-- `HandleTable::with`, for a closure that changes the object by `f`. -/
def withObject (tab hv required : Nat) (f : KernelObject → KernelObject) : KernelM Unit := do
  let _ ← findSlot tab hv required
  Prog.modify fun k => k.setTable tab <|
    (k.tables tab).modify (·.value == hv) fun s => { s with object := f s.object }

/-- The values in every table are distinct. -/
def Distinct (k : Kernel) : Prop := ∀ tab, (k.tables tab).Distinct HandleSlot.value

/-- The calls on the value of the handle in cell `i` act on that cell. -/
structure ActsOn (k : Kernel) (tab i : Nat) (s : HandleSlot) : Prop where
  find : ∀ required, checkRights s.rights required = true →
    findSlot tab s.value required k = .ok s k
  update : ∀ required f, checkRights s.rights required = true → ∃ t,
    withObject tab s.value required f k = .ok () (k.setTable tab t) ∧
      t.cells = (k.tables tab).cells.set i (some { s with object := f s.object })
  remove : ∃ t, removeWithRights tab s.value k = .ok (s.object, s.rights) (k.setTable tab t) ∧
    t.cells = (k.tables tab).cells.set i none

variable {k : Kernel}

theorem Distinct.actsOn (h : k.Distinct) {tab i : Nat} {s : HandleSlot}
    (here : (k.tables tab).at? i = some s) : k.ActsOn tab i s := by
  have found := (h tab).find here
  have find : ∀ required, checkRights s.rights required = true →
      findSlot tab s.value required k = .ok s k := by
    intro required rights
    simp [findSlot, found, rights]
  refine ⟨find, fun required f rights => ?_, ?_⟩
  · refine ⟨_, ?_, (h tab).modify_cells here fun u => { u with object := f u.object }⟩
    rw [withObject, Prog.bind_ok (find required rights)]
    rfl
  · obtain ⟨t, taken, cells⟩ := (h tab).take_eq here
    exact ⟨t, by simp [removeWithRights, taken], cells⟩

end Kernel

/-! ## The machine -/

inductive HandleOp where
  | add (tab : Nat) (object : KernelObject) (rights : Nat)
  | addRaw (tab rawVal : Nat) (object : KernelObject) (rights : Nat)
  | duplicate (tab hv required : Nat)
  | remove (tab hv : Nat)
  | update (tab hv required : Nat) (f : KernelObject → KernelObject)
  | other (f : Kernel → Kernel)

namespace HandleOp

open Kernel

def exec : HandleOp → KernelM Unit
  | .add tab o rights => do let _ ← addHandle tab o rights
  | .addRaw tab raw o rights => addRawHandle tab raw o rights
  | .duplicate tab hv required => do let _ ← duplicateHandle tab hv required
  | .remove tab hv => do let _ ← removeWithRights tab hv
  | .update tab hv required f => withObject tab hv required f
  | .other f => Prog.modify f

/-- The state after a call, also when it ends in a panic. -/
def apply (op : HandleOp) (k : Kernel) : Kernel := (op.exec k).state

/-- A raw value goes into the table of a process that was just launched; other code leaves the tables
and the counter alone. -/
def Enabled (k : Kernel) : HandleOp → Prop
  | .addRaw tab raw _ _ => (k.tables tab).occupants = [] ∧ raw < 2 ^ 32
  | .other f => (f k).tables = k.tables ∧ (f k).handleValueCounter = k.handleValueCounter
  | _ => True

/-- The table for which the call draws a value from the counter, if it stores anything. -/
def drawsFor (k : Kernel) : HandleOp → Option Nat
  | .add tab _ _ => if (k.tables tab).Full then none else some tab
  | .duplicate tab hv required =>
    match findSlot tab hv required k with
    | .ok s _ =>
      match duplicateObject s.object with
      | .ok _ => if (k.tables tab).Full then none else some tab
      | .error _ => none
    | _ => none
  | _ => none

/-- The value that is drawn is not in use in its table. -/
def Fresh (k : Kernel) (op : HandleOp) : Prop :=
  ∀ tab, op.drawsFor k = some tab → ¬ (k.tables tab).Uses HandleSlot.value k.handleValueCounter

/-- The call takes a handle with this value out of the table. -/
def Removes (tab hv : Nat) (op : HandleOp) : Prop := op = .remove tab hv

/-- A run of calls that all meet `cond`. -/
inductive Run (cond : Kernel → HandleOp → Prop) (k₀ : Kernel) : Kernel → Prop where
  | start : Run cond k₀ k₀
  | step {k : Kernel} (op : HandleOp) (run : Run cond k₀ k) (enabled : op.Enabled k)
      (meets : cond k op) : Run cond k₀ (op.apply k)

/-! ## One call -/

/-- What a call can do to a table. -/
inductive Change (k : Kernel) (op : HandleOp) (tab : Nat) : HandleTable → Prop where
  | same : Change k op tab (k.tables tab)
  | drawn {t : HandleTable} {s : HandleSlot} (draws : op.drawsFor k = some tab)
      (value : s.value = k.handleValueCounter) (put : (k.tables tab).insert? s = some t) :
      Change k op tab t
  | raw {t : HandleTable} {s : HandleSlot} (empty : (k.tables tab).occupants = [])
      (put : (k.tables tab).insert? s = some t) : Change k op tab t
  | removed {t : HandleTable} {s : HandleSlot} {hv : Nat} (removes : op.Removes tab hv)
      (taken : (k.tables tab).take? (·.value == hv) = some (s, t)) : Change k op tab t
  | updated {hv : Nat} {f : KernelObject → KernelObject} :
      Change k op tab ((k.tables tab).modify (·.value == hv) fun s => { s with object := f s.object })

variable {k k₀ : Kernel} {op : HandleOp} {tab : Nat}

theorem change_setTable {tab' : Nat} {t : HandleTable} (h : tab = tab' → Change k op tab t) :
    Change k op tab ((k.setTable tab' t).tables tab) := by
  by_cases eq : tab = tab'
  · subst eq
    rw [setTable_tables_same]
    exact h rfl
  · rw [setTable_tables_ne _ _ eq]
    exact .same

/-- Storing a slot fills a free cell of one table; what does not fit is dropped. -/
theorem putSlot_tables (tab' : Nat) (s : HandleSlot) (k : Kernel) :
    ((putSlot tab' s k).state.tables = k.tables ∧ (k.tables tab').Full) ∨
      ∃ t, (k.tables tab').insert? s = some t ∧ (putSlot tab' s k).state = k.setTable tab' t := by
  unfold putSlot
  cases put : (k.tables tab').insert? s with
  | some t => exact Or.inr ⟨t, rfl, rfl⟩
  | none =>
    refine Or.inl ⟨?_, Slots.insert?_eq_none.mp put⟩
    exact ((untouched_dropObject s.object).bind fun _ => .throw _) k |>.tables

theorem addHandle_tables (tab' : Nat) (o : KernelObject) (rights : Nat) (k : Kernel) :
    ((addHandle tab' o rights k).state.tables = k.tables ∧ (k.tables tab').Full) ∨
      ∃ t s, (k.tables tab').insert? s = some t ∧ s.value = k.handleValueCounter ∧
        (addHandle tab' o rights k).state.tables = (k.setTable tab' t).tables := by
  have split : (addHandle tab' o rights k).state =
      (putSlot tab' ⟨k.handleValueCounter, rights, o⟩
        { k with handleValueCounter := (k.handleValueCounter + 1) % 2 ^ 32 }).state := by
    rw [addHandle]
    exact ChannelOp.state_map (putSlot tab' _) (fun _ => k.handleValueCounter) _
  rw [split]
  rcases putSlot_tables tab' ⟨k.handleValueCounter, rights, o⟩
    { k with handleValueCounter := (k.handleValueCounter + 1) % 2 ^ 32 } with full | ⟨t, put, eq⟩
  · exact Or.inl full
  · exact Or.inr ⟨t, _, put, rfl, by rw [eq]; rfl⟩

theorem add_change {o : KernelObject} {rights tab' : Nat}
    (draws : ¬ (k.tables tab').Full → op.drawsFor k = some tab') :
    Change k op tab ((addHandle tab' o rights k).state.tables tab) := by
  rcases addHandle_tables tab' o rights k with ⟨same, _⟩ | ⟨t, s, put, value, eq⟩
  · rw [same]
    exact .same
  · have room : ¬ (k.tables tab').Full := fun full => by
      rw [Slots.insert?_eq_none.mpr full] at put
      cases put
    rw [eq]
    refine change_setTable fun here => ?_
    subst here
    exact .drawn (draws room) value put

theorem findSlot_cases (tab hv required : Nat) (k : Kernel) :
    (∃ e, findSlot tab hv required k = .err e k) ∨ ∃ s, findSlot tab hv required k = .ok s k := by
  unfold findSlot
  split
  · exact Or.inl ⟨_, rfl⟩
  · split
    · exact Or.inr ⟨_, rfl⟩
    · exact Or.inl ⟨_, rfl⟩

theorem apply_change (enabled : op.Enabled k) (tab : Nat) :
    Change k op tab ((op.apply k).tables tab) := by
  unfold apply
  cases op with
  | add tab' o rights =>
    have eq : ((HandleOp.add tab' o rights).exec k).state = (addHandle tab' o rights k).state :=
      ChannelOp.state_map _ _ _
    rw [eq]
    exact add_change fun room => by simp [drawsFor, room]
  | addRaw tab' raw o rights =>
    rcases putSlot_tables tab' ⟨raw, rights, o⟩ k with ⟨same, _⟩ | ⟨t, put, eq⟩
    · change Change _ _ _ ((putSlot tab' _ k).state.tables tab)
      rw [same]
      exact .same
    · change Change _ _ _ ((putSlot tab' _ k).state.tables tab)
      rw [eq]
      refine change_setTable fun here => ?_
      subst here
      exact .raw enabled.1 put
  | duplicate tab' hv required =>
    have eq : ((HandleOp.duplicate tab' hv required).exec k).state =
        (duplicateHandle tab' hv required k).state := ChannelOp.state_map _ _ _
    rw [eq, duplicateHandle]
    rcases findSlot_cases tab' hv required k with ⟨e, found⟩ | ⟨s, found⟩
    · rw [Prog.bind_err found]
      exact .same
    · rw [Prog.bind_ok found]
      cases dup : duplicateObject s.object with
      | error e => exact .same
      | ok o => exact add_change fun room => by simp [drawsFor, found, dup, room]
  | remove tab' hv =>
    have eq : ((HandleOp.remove tab' hv).exec k).state = (removeWithRights tab' hv k).state :=
      ChannelOp.state_map _ _ _
    rw [eq, removeWithRights]
    cases taken : (k.tables tab').take? (·.value == hv) with
    | none => exact .same
    | some r =>
      refine change_setTable fun here => ?_
      subst here
      exact .removed rfl taken
  | update tab' hv required f =>
    rw [exec, withObject]
    rcases findSlot_cases tab' hv required k with ⟨e, found⟩ | ⟨s, found⟩
    · rw [Prog.bind_err found]
      exact .same
    · rw [Prog.bind_ok found]
      refine change_setTable fun here => ?_
      subst here
      exact .updated
  | other f =>
    rw [exec, Prog.modify_apply, Outcome.state_ok, enabled.1]
    exact .same

/-- A call that draws a value does store it. -/
theorem draws_stores (draws : op.drawsFor k = some tab) :
    ∃ s t, s.value = k.handleValueCounter ∧ (k.tables tab).insert? s = some t ∧
      (op.apply k).tables tab = t := by
  have added : ∀ o rights, ¬ (k.tables tab).Full → ∃ s t, s.value = k.handleValueCounter ∧
      (k.tables tab).insert? s = some t ∧ (addHandle tab o rights k).state.tables tab = t := by
    intro o rights room
    rcases addHandle_tables tab o rights k with ⟨_, full⟩ | ⟨t, s, put, value, eq⟩
    · exact absurd full room
    · exact ⟨s, t, value, put, by rw [eq, setTable_tables_same]⟩
  unfold apply
  cases op with
  | add tab' o rights =>
    simp only [drawsFor] at draws
    split_ifs at draws with full
    cases draws
    have eq : ((HandleOp.add tab o rights).exec k).state = (addHandle tab o rights k).state :=
      ChannelOp.state_map _ _ _
    rw [eq]
    exact added o rights full
  | duplicate tab' hv required =>
    have eq : ((HandleOp.duplicate tab' hv required).exec k).state =
        (duplicateHandle tab' hv required k).state := ChannelOp.state_map _ _ _
    rw [eq, duplicateHandle]
    rcases findSlot_cases tab' hv required k with ⟨e, found⟩ | ⟨s, found⟩
    · simp [drawsFor, found] at draws
    · rw [Prog.bind_ok found]
      cases dup : duplicateObject s.object with
      | error e => simp [drawsFor, found, dup] at draws
      | ok o =>
        simp only [drawsFor, found, dup] at draws
        split_ifs at draws with full
        cases draws
        exact added o s.rights full
  | addRaw => cases draws
  | remove => cases draws
  | update => cases draws
  | other => cases draws

/-- From distinct values a call leads to distinct values exactly if it is fresh. -/
theorem distinct_apply_iff (h : k.Distinct) (enabled : op.Enabled k) :
    (op.apply k).Distinct ↔ op.Fresh k := by
  constructor
  · intro distinct tab draws
    obtain ⟨s, t, value, put, eq⟩ := draws_stores draws
    have after := distinct tab
    rw [eq, Slots.distinct_insert_iff (h tab) put, value] at after
    exact after
  · intro fresh tab
    have change := apply_change enabled tab
    generalize (op.apply k).tables tab = t at change ⊢
    cases change with
    | same => exact h tab
    | drawn draws value put =>
      refine (Slots.distinct_insert_iff (h tab) put).mpr ?_
      rw [value]
      exact fresh tab draws
    | raw empty put =>
      exact (Slots.distinct_insert_iff (h tab) put).mpr (Slots.not_uses_of_empty empty _)
    | removed _ taken => exact (h tab).take taken
    | updated => exact (h tab).modify fun _ => rfl

/-- A handle stays in its cell, under its value, until a call takes it out. -/
theorem apply_keeps (enabled : op.Enabled k) {i : Nat} {s : HandleSlot}
    (here : (k.tables tab).at? i = some s) (stays : ¬ op.Removes tab s.value) :
    ∃ s', ((op.apply k).tables tab).at? i = some s' ∧ s'.value = s.value := by
  have inserted : ∀ {u t}, (k.tables tab).insert? u = some t → t.at? i = some s := by
    intro u t put
    obtain ⟨j, free, cells⟩ := Slots.insert?_at? put
    rw [cells, if_neg, here]
    rintro rfl
    rw [here] at free
    cases free
  have change := apply_change enabled tab
  generalize (op.apply k).tables tab = t at change ⊢
  cases change with
  | same => exact ⟨s, here, rfl⟩
  | drawn _ _ put => exact ⟨s, inserted put, rfl⟩
  | raw _ put => exact ⟨s, inserted put, rfl⟩
  | removed removes taken =>
    obtain ⟨j, at_j, match_j, cells⟩ := Slots.take?_at? taken
    refine ⟨s, ?_, rfl⟩
    rw [cells, if_neg, here]
    rintro rfl
    rw [here] at at_j
    cases at_j
    exact stays (by rw [eq_of_beq match_j]; exact removes)
  | updated =>
    obtain ⟨s', at_i, eq⟩ := Slots.modify_at? here
    exact ⟨s', at_i, by rcases eq with rfl | ⟨_, rfl⟩ <;> rfl⟩

/-! ## Runs -/

theorem Run.mono {cond cond' : Kernel → HandleOp → Prop} (run : Run cond k₀ k)
    (weaker : ∀ k op, cond k op → cond' k op) : Run cond' k₀ k := by
  induction run with
  | start => exact .start
  | step op _ enabled meets ih => exact .step op ih enabled (weaker _ _ meets)

theorem Run.distinct (start : k₀.Distinct) (run : Run (fun k op => op.Fresh k) k₀ k) :
    k.Distinct := by
  induction run with
  | start => exact start
  | step op _ enabled fresh ih => exact (distinct_apply_iff ih enabled).mpr fresh

theorem Run.keeps {i : Nat} {s : HandleSlot} (here : (k₀.tables tab).at? i = some s)
    (run : Run (fun _ op => ¬ op.Removes tab s.value) k₀ k) :
    ∃ s', (k.tables tab).at? i = some s' ∧ s'.value = s.value := by
  induction run with
  | start => exact ⟨s, here, rfl⟩
  | step op _ enabled stays ih =>
    obtain ⟨s', at_i, value⟩ := ih
    obtain ⟨s'', at_i', value'⟩ := apply_keeps enabled at_i (by rw [value]; exact stays)
    exact ⟨s'', at_i', value'.trans value⟩

end HandleOp

/-! ## Values identify handles -/

open HandleOp in
/-- In every run of fresh calls the values in each table are distinct; a call keeps them so exactly if
it is fresh; and a handle that is not taken out stays in its cell, where every call on its value acts. -/
theorem handle_values_identify {k₀ k : Kernel} (start : k₀.Distinct)
    (run : Run (fun k op => op.Fresh k) k₀ k) :
    k.Distinct ∧ (∀ op : HandleOp, op.Enabled k → ((op.apply k).Distinct ↔ op.Fresh k)) ∧
      ∀ tab i s, (k.tables tab).at? i = some s →
        ∀ k', Run (fun k op => op.Fresh k ∧ ¬ op.Removes tab s.value) k k' →
          ∃ s', (k'.tables tab).at? i = some s' ∧ s'.value = s.value ∧ k'.ActsOn tab i s' := by
  have distinct := run.distinct start
  refine ⟨distinct, fun op enabled => distinct_apply_iff distinct enabled, ?_⟩
  intro tab i s here k' rest
  obtain ⟨s', at_i, value⟩ := Run.keeps here (rest.mono fun _ _ => And.right)
  have distinct' := Run.distinct distinct (rest.mono fun _ _ => And.left)
  exact ⟨s', at_i, value, distinct'.actsOn at_i⟩

namespace Kernel

/-- A boot image as the launcher of a service hands it over. -/
def demoImage : Vmo := ⟨1, 0x40300000, 4096, false, none, List.replicate 8 none, []⟩

theorem demo_distinct (object : KernelObject) : (demo object).Distinct := by
  intro tab i j s s' hi hj _
  by_cases own : tab = 1
  · subst own
    have first : ∀ i s, ((demo object).tables 1).at? i = some s → i = 0 := by
      intro i s here
      cases i with
      | zero => rfl
      | succ i =>
        have none_at : ∀ c, (List.replicate 11 (none : Option HandleSlot))[i]? ≠ some (some c) := by
          intro c eq
          have := List.eq_of_mem_replicate (List.mem_of_getElem? eq)
          cases this
        exact absurd (Slots.at?_eq_some.mp here) (none_at s)
    rw [first i s hi, first j s' hj]
  · have empty : ((demo object).tables tab).occupants = [] := by
      simp [demo, own]
    exact absurd ⟨i, s, hi, rfl⟩ (Slots.not_uses_of_empty empty s.value)

end Kernel

open HandleOp Kernel in
theorem handle_values_identify_demo :
    (HandleOp.apply (.add 2 (.port 8) 3) (demo (.port 9))).Distinct := by
  have fresh : HandleOp.Fresh (demo (.port 9)) (.add 2 (.port 8) 3) := by
    intro tab draws
    cases draws
    exact Slots.not_uses_of_empty rfl _
  exact (handle_values_identify (demo_distinct _)
    (.step (.add 2 (.port 8) 3) .start trivial fresh)).1

open HandleOp Kernel in
/-- A service is launched with its boot image under the value that the new process draws next: the
value then stands for two objects, and closing it takes the image. -/
theorem raw_value_drawn_again :
    ∃ k, Run (fun _ _ => True) (demo (.port 9)) k ∧ ¬ k.Distinct ∧
      (k.tables 2).at? 0 = some ⟨1001, 3, .vmo demoImage⟩ ∧
      (k.tables 2).at? 1 = some ⟨1001, 3, .port 8⟩ ∧
      ∃ k', removeWithRights 2 1001 k = .ok (.vmo demoImage, 3) k' := by
  refine ⟨_, ((Run.start.step (.addRaw 2 1001 (.vmo demoImage) 3) ⟨rfl, by decide⟩ trivial).step
    (.add 1 (.process 3) 3) trivial trivial).step (.add 2 (.port 8) 3) trivial trivial, ?_, rfl, rfl,
    _, rfl⟩
  intro distinct
  have same := distinct 2 0 1 _ _ rfl rfl rfl
  cases same

end CapsuleOS
