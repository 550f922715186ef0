import CapsuleOS.Ipc.CustodySteps

/-!
# Conservation of transferred objects

In every run whose steps are sound, an object that starts in one place is in exactly one place until
its handle is closed, whoever has transferred it and how often.
-/
namespace CapsuleOS

open Lib

namespace ChannelOp

open Kernel

variable {k k' : Kernel} {op : ChannelOp}

/-- What a sound step does with the objects: it closes one handle or moves objects between the two
parties. -/
def Handles (k k' : Kernel) (op : ChannelOp) : Prop :=
  Moved (op.parties k) k.held k'.held ∧ op.closes k = none ∨
    ∃ (x : KernelObject × Nat) (tab i : Nat), op.closes k = some x.1 ∧
      k.held (.table tab i) = some x ∧ k'.held = Function.update k.held (.table tab i) none

theorem Kept.step (g : Kept k) (sound : op.Sound k) (steps : op.Steps k k') :
    Kept k' ∧ Handles k k' op ∧ op.Delivers k k' := by
  have standing' := steps.standing g.standing
  have enabled := steps.enabled
  have ret := steps.returns
  cases op with
  | write cur p data hs =>
    obtain ⟨t, ht, idle⟩ := enabled
    obtain ⟨kept, moved, delivers⟩ := write_conserves g ht idle sound standing' ret.of_map
    exact ⟨kept, Or.inl ⟨moved, rfl⟩, delivers⟩
  | read cur p data hs =>
    obtain ⟨t, ht, _⟩ := enabled
    obtain ⟨kept, moved, delivers⟩ := read_conserves g ht sound standing' (fun k' waited =>
      (quiet_modify k cur (by intro; rfl) (by intro; rfl)).trans (quiet_waitReceiver waited))
      ret.of_map
    exact ⟨kept, Or.inl ⟨moved, rfl⟩, delivers⟩
  | readWithTimeout cur p data hs ms =>
    obtain ⟨t, ht, _⟩ := enabled
    obtain ⟨kept, moved, delivers⟩ := read_conserves g ht sound standing' (fun k' waited =>
      (quiet_modify k cur (by intro; rfl) (by intro; rfl)).trans (quiet_waitReceiver waited))
      ret.of_map
    exact ⟨kept, Or.inl ⟨moved, rfl⟩, delivers⟩
  | resume cur =>
    obtain ⟨t, ht, _⟩ := enabled
    have quiet := quiet_resume ht ret.of_map
    exact ⟨g.of_quiet standing' quiet, Or.inl ⟨quiet.1.held ▸ .refl _ _, rfl⟩, trivial⟩
  | close tab hv =>
    obtain ⟨kept, done⟩ := close_conserves g sound standing' ret.of_map
    refine ⟨kept, ?_, trivial⟩
    rcases done with ⟨nothing, rfl⟩ | ⟨s, i, closed, source, removed⟩
    · exact Or.inl ⟨.refl _ _, nothing⟩
    · exact Or.inr ⟨s.content, tab, i, closed, source, removed⟩
  | tick =>
    have quiet : Quiet k k' := by
      rcases ret with ⟨_, ran⟩ | ⟨_, ran⟩ <;> cases ran
      exact ⟨⟨rfl, fun _ => rfl⟩, sendersStay_of_chans rfl⟩
    exact ⟨g.of_quiet standing' quiet, Or.inl ⟨quiet.1.held ▸ .refl _ _, rfl⟩, trivial⟩

/-! ## Runs -/

/-- Runs whose steps all satisfy `C`, with the objects whose handles they have closed. -/
inductive Run (C : Kernel → ChannelOp → Prop) (k : Kernel) : List KernelObject → Kernel → Prop where
  | nil : Run C k [] k
  | step {closed : List KernelObject} {k' k'' : Kernel} {op : ChannelOp} (run : Run C k closed k')
      (cond : C k' op) (steps : op.Steps k' k'') : Run C k (closed ++ (op.closes k').toList) k''

/-- Nobody has anything stashed. -/
structure Unstarted (k : Kernel) : Prop where
  standing : k.Standing
  slots : ∀ tid t, k.thread? tid = some t → t.ipcTransferSlots = [none, none]

theorem Unstarted.kept (h : Unstarted k) : Kept k where
  standing := h.standing
  parked tid i x stash := by
    obtain ⟨t, ht, cell⟩ := Option.bind_eq_some_iff.mp stash
    rw [h.slots tid t ht] at cell
    match i with
    | 0 => cases cell
    | 1 => cases cell
    | i + 2 => cases cell
  sizes tid n eq := by
    obtain ⟨t, ht, len⟩ := Option.map_eq_some_iff.mp eq
    rw [h.slots tid t ht] at len
    exact len.symm

/-- The object is in one place, or its handle has been closed and it is in none. -/
def Accounted (closed : List KernelObject) (k : Kernel) (o : KernelObject) : Prop :=
  o ∉ closed ∧ k.HasOnce o ∨ o ∈ closed ∧ k.HasNowhere o

theorem Accounted.step {closed : List KernelObject} {o : KernelObject} (h : Accounted closed k o)
    (moves : Handles k k' op) : Accounted (closed ++ (op.closes k).toList) k' o := by
  rcases moves with ⟨moved, nothing⟩ | ⟨x, tab, i, done, source, result⟩
  · rw [nothing, Option.toList_none, List.append_nil]
    exact h.imp (And.imp_right moved.heldOnce) (And.imp_right moved.nowhere)
  · rw [done, Option.toList_some, Accounted, HasOnce, HasNowhere, result]
    by_cases same : x.1 = o
    · rcases h with ⟨_, once⟩ | ⟨_, nowhere⟩
      · exact Or.inr ⟨by simp [same], once.removed source same⟩
      · exact absurd ⟨x, source, same⟩ (nowhere (.table tab i))
    · have still : o ∈ closed ++ [x.1] ↔ o ∈ closed := by simp [Ne.symm same]
      rw [still]
      refine h.imp (And.imp_right fun once => once.other_removed source same) (And.imp_right ?_)
      exact fun nowhere pl => (holdsAt_update_none source same pl).not.mpr (nowhere pl)

theorem Run.kept {closed : List KernelObject} (start : Unstarted k)
    (run : Run (fun k op => op.Sound k) k closed k') :
    Kept k' ∧ ∀ o, k.HasOnce o → Accounted closed k' o := by
  induction run with
  | nil => exact ⟨start.kept, fun o once => Or.inl ⟨List.not_mem_nil, once⟩⟩
  | step _ cond steps ih =>
    obtain ⟨kept, moves, _⟩ := ih.1.step cond steps
    exact ⟨kept, fun o once => (ih.2 o once).step moves⟩

end ChannelOp

open Kernel in
/-- In every run of sound steps an object that started in one place is in exactly one place, or its
handle has been closed; only senders blocked in a write hold stashed objects; and every further
sound step moves objects only between its two parties and leaves the handles of its message, with
their rights, where they belong. -/
theorem handles_conserved {k₀ k : Kernel} {closed : List KernelObject}
    (start : ChannelOp.Unstarted k₀) (run : ChannelOp.Run (fun k op => op.Sound k) k₀ closed k) :
    (∀ o, k₀.HasOnce o → ChannelOp.Accounted closed k o) ∧
      (∀ tid i x, k.stashed tid i = some x → ∃ t p, k.thread? tid = some t ∧
        t.state = .blocked ∧ t.call = some (.write p)) ∧
      ∀ op k', ChannelOp.Sound k op → ChannelOp.Steps op k k' →
        ChannelOp.Handles k k' op ∧ op.Delivers k k' := by
  obtain ⟨kept, accounted⟩ := run.kept start
  refine ⟨accounted, fun tid i x stash => ?_, fun op k' sound steps => (kept.step sound steps).2⟩
  obtain ⟨p, line⟩ := kept.parked tid i x stash
  obtain ⟨t, call, ht, blocked, hc, stands⟩ := kept.standing.waiting .send p tid line
  exact ⟨t, p, ht, blocked, stands ▸ hc⟩

/-! ## The small machine -/

namespace Kernel

/-- The small machine with a given table for the second thread. -/
def demoWith (object : KernelObject) (t : HandleTable) : Kernel := (demo object).setTable 2 t

theorem stashed_none {k : Kernel}
    (h : ∀ t ∈ k.threads.occupants, t.ipcTransferSlots = [none, none]) (tid i : Nat) :
    k.stashed tid i = none := by
  cases ht : k.thread? tid with
  | none => simp [stashed, ht]
  | some t =>
    have slots := h t (thread?_mem k ht)
    by_cases inside : i < 2
    · interval_cases i <;> simp [stashed, ht, slots]
    · have outside : ([none, none] : List (Option (KernelObject × Nat)))[i]? = none :=
        List.getElem?_eq_none (Nat.not_lt.mp inside)
      simp [stashed, ht, slots, outside]

theorem held_empty {k : Kernel} {tab : Nat} (h : k.tables tab = Slots.empty) (i : Nat) :
    k.held (.table tab i) = none := by
  simp only [held, h, Slots.empty, List.getElem?_replicate]
  split_ifs <;> rfl

theorem held_mem {k : Kernel} {tab i : Nat} {x : KernelObject × Nat}
    (h : k.held (.table tab i) = some x) : ∃ s ∈ (k.tables tab).occupants, x = s.content := by
  obtain ⟨s, hs, rfl⟩ := Option.map_eq_some_iff.mp h
  refine ⟨s, Cells.mem_occupants.mpr (List.mem_of_getElem? (i := i) ?_), rfl⟩
  simpa [Option.join_eq_some_iff] using hs

/-- There, an object is behind the handle 5 or in the table of the second thread. -/
theorem demoWith_held {object : KernelObject} {t : HandleTable} {pl : Place}
    {x : KernelObject × Nat} (h : (demoWith object t).held pl = some x) :
    pl = .table 1 0 ∨ ∃ s ∈ t.occupants, x = s.content := by
  cases pl with
  | stash tid i =>
    have none_ : (demoWith object t).stashed tid i = none := by
      refine stashed_none (fun u mem => ?_) tid i
      have mem' := Cells.mem_occupants.mp mem
      have two : u = demoThread 1 ∨ u = demoThread 2 := by
        simpa [demoWith, demo, setTable, List.replicate] using mem'
      rcases two with rfl | rfl <;> rfl
    exact absurd (none_.symm.trans h) (by simp)
  | table tab i =>
    by_cases two : tab = 2
    · subst two
      obtain ⟨s, mem, eq⟩ := held_mem h
      rw [demoWith, setTable_tables_same] at mem
      exact Or.inr ⟨s, mem, eq⟩
    · have table : (demoWith object t).tables tab = (demo object).tables tab :=
        setTable_tables_ne _ t two
      by_cases one : tab = 1
      · subst one
        cases i with
        | zero => exact Or.inl rfl
        | succ i =>
          simp only [held, table, demo, if_true, List.getElem?_cons_succ, List.getElem?_replicate] at h
          split_ifs at h <;> cases h
      · rw [held_empty (by rw [table]; simp [demo, one])] at h
        cases h

theorem demoWith_hasOnce {object : KernelObject} {t : HandleTable}
    (absent : ∀ s ∈ t.occupants, s.object ≠ object) : (demoWith object t).HasOnce object := by
  refine ⟨.table 1 0, ⟨(object, 3), rfl, rfl⟩, ?_⟩
  rintro pl ⟨x, hx, same⟩
  rcases demoWith_held hx with eq | ⟨s, mem, rfl⟩
  · exact eq
  · exact absurd same (absent s mem)

theorem demoWith_unstarted (object : KernelObject) (t : HandleTable) :
    ChannelOp.Unstarted (demoWith object t) where
  standing := (calm_handles.table (demo object) 2 t).standing (demo_standing object)
  slots tid u hu := by
    have hu' : (demo object).thread? tid = some u := hu
    rcases demo_threads hu' with rfl | rfl <;> rfl

/-- The first thread sends its handle 5 and blocks. -/
def demoWrite : ChannelOp := .write 1 100 [7] [5]

/-- The second thread reads. -/
def demoRead : ChannelOp := .read 2 200 [0] [0]

def demoSent (object : KernelObject) (t : HandleTable) : Kernel :=
  (demoWrite.exec (demoWith object t)).state

def demoTaken (object : KernelObject) (t : HandleTable) : Kernel :=
  (demoRead.exec (demoSent object t)).state

/-- A table without a free cell. -/
def fullTable : HandleTable := ⟨List.replicate 12 (some ⟨0, 3, .port 8⟩), rfl⟩

end Kernel

open Kernel in
/-- On the small machine a port is sent and received. -/
theorem handles_conserved_demo : (demoTaken (.port 9) Slots.empty).HasOnce (.port 9) := by
  have start := demoWith_unstarted (.port 9) Slots.empty
  have sent : demoWrite.Steps (demoWith (.port 9) Slots.empty) (demoSent (.port 9) Slots.empty) :=
    .ok ⟨_, rfl, rfl⟩ (some .blocked) rfl
  have taken : demoRead.Steps (demoSent (.port 9) Slots.empty) (demoTaken (.port 9) Slots.empty) :=
    .ok ⟨_, rfl, rfl⟩ (some (.read 1 [7] [1000])) rfl
  have sound : demoWrite.Sound (demoWith (.port 9) Slots.empty) := by
    intro tab htab
    cases htab
    refine ⟨show ∀ s ∈ _, _ from by decide, fun w k₀ found => ?_⟩
    cases found
  have sound' : demoRead.Sound (demoSent (.port 9) Slots.empty) := by
    intro w k₀ found _
    cases found
    exact ⟨2, rfl, by decide⟩
  have result := (handles_conserved start ((ChannelOp.Run.nil.step sound sent).step sound' taken)).1
    (.port 9) (demoWith_hasOnce fun s mem => absurd mem (by simp))
  exact (result.resolve_right fun bad => absurd bad.1 (by decide)).2

open Kernel in
/-- With a full table, the port is in no place once it has been received. -/
theorem demoTaken_lost : (demoTaken (.port 9) fullTable).HasNowhere (.port 9) := by
  have tables : (demoTaken (.port 9) fullTable).tables =
      Function.update (demoWith (.port 9) fullTable).tables 1 Slots.empty := rfl
  rintro (⟨tab, i⟩ | ⟨tid, i⟩) ⟨x, hx, same⟩
  · by_cases one : tab = 1
    · rw [held_empty (by rw [tables, one, Function.update_self])] at hx
      cases hx
    · have before : (demoWith (.port 9) fullTable).held (.table tab i) = some x := by
        rw [← hx]
        simp only [held, tables, Function.update_of_ne one]
      rcases demoWith_held before with eq | ⟨s, mem, rfl⟩
      · cases eq
        exact one rfl
      · exact absurd same ((by decide : ∀ s ∈ fullTable.occupants, s.object ≠ .port 9) s mem)
  · have none_ : (demoTaken (.port 9) fullTable).stashed tid i = none :=
      stashed_none (by decide) tid i
    exact absurd (none_.symm.trans hx) (by simp)

/-- A small VMO without committed pages. -/
def Kernel.demoVmo : Vmo where
  id := 1
  metaPage := 0x40300000
  size := 4096
  isCow := false
  parentId := none
  extraMetaPages := []
  committedPages := []

open Kernel in
/-- There, sending a VMO leaves it with the sender as well, and a port that is sent to a thread with
a full table is gone after the read. -/
theorem transfer_doubles_and_loses :
    (∃ k, ChannelOp.Run (fun _ _ => True) (demoWith (.vmo demoVmo) Slots.empty) [] k ∧
      ChannelOp.Unstarted (demoWith (.vmo demoVmo) Slots.empty) ∧
      (demoWith (.vmo demoVmo) Slots.empty).HasOnce (.vmo demoVmo) ∧ ¬ k.HasOnce (.vmo demoVmo)) ∧
    ∃ k, ChannelOp.Run (fun _ _ => True) (demoWith (.port 9) fullTable) [] k ∧
      ChannelOp.Unstarted (demoWith (.port 9) fullTable) ∧
      (demoWith (.port 9) fullTable).HasOnce (.port 9) ∧ k.HasNowhere (.port 9) := by
  constructor
  · have sent : demoWrite.Steps (demoWith (.vmo demoVmo) Slots.empty)
        (demoSent (.vmo demoVmo) Slots.empty) := .ok ⟨_, rfl, rfl⟩ (some .blocked) rfl
    refine ⟨_, ChannelOp.Run.nil.step trivial sent, demoWith_unstarted _ _,
      demoWith_hasOnce fun s mem => absurd mem (by simp), fun once => ?_⟩
    have kept : HoldsAt (demoSent (.vmo demoVmo) Slots.empty).held (fun x => x.1 = .vmo demoVmo)
      (.table 1 0) := ⟨(.vmo demoVmo, 3), rfl, rfl⟩
    have same := once.unique kept (show HoldsAt _ _ (.stash 1 0) from ⟨(.vmo demoVmo, 3), rfl, rfl⟩)
    cases same
  · have sent : demoWrite.Steps (demoWith (.port 9) fullTable) (demoSent (.port 9) fullTable) :=
      .ok ⟨_, rfl, rfl⟩ (some .blocked) rfl
    have taken : demoRead.Steps (demoSent (.port 9) fullTable) (demoTaken (.port 9) fullTable) :=
      .ok ⟨_, rfl, rfl⟩ (some (.read 1 [7] [0])) rfl
    refine ⟨_, (ChannelOp.Run.nil.step trivial sent).step trivial taken, demoWith_unstarted _ _,
      demoWith_hasOnce (by decide), demoTaken_lost⟩

end CapsuleOS
