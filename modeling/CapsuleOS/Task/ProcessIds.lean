import CapsuleOS.Task.ProcessRuns

/-!
# Process ids

Ids come from a counter, so that none is given out twice: not to two processes at once, and not again
after a process has been reaped. Only a placeholder in the table has an id in common with others, which
is 0.
-/
namespace CapsuleOS

open Lib

namespace Os

variable {s s' : Os} {z : Process}

/-- The ids in the table. -/
def ids (s : Os) : List Nat := s.processes.occupants.map (·.id)

/-- Every id given out so far: to those that were reaped, and to those in the table. -/
def allIds (s : Os) : List Nat := s.reaped ++ s.ids

/-- No id is in use twice, and none that was reaped is in use; only placeholders share theirs. -/
def Distinct (s : Os) : Prop := (s.allIds.filter (· ≠ 0)).Nodup

instance : DecidablePred Distinct := fun s =>
  inferInstanceAs (Decidable (s.allIds.filter (· ≠ 0)).Nodup)

/-- A process is reaped once. -/
theorem Distinct.count_reaped (h : s.Distinct) {id : Nat} (pos : id ≠ 0) : s.reaped.count id ≤ 1 := by
  have once := List.nodup_iff_count_le_one.mp h id
  rw [List.count_filter (by simpa using pos), allIds, List.count_append] at once
  omega

/-- A process that has been reaped is gone. -/
theorem Distinct.gone (h : s.Distinct) {p : Process} (pos : p.id ≠ 0) (reaped : p.id ∈ s.reaped) :
    p ∉ s.processes.occupants := by
  intro mem
  have once := List.nodup_iff_count_le_one.mp h p.id
  rw [List.count_filter (by simpa using pos), allIds, List.count_append] at once
  have first := List.count_pos_iff.mpr reaped
  have second : 0 < s.ids.count p.id := List.count_pos_iff.mpr (List.mem_map_of_mem mem)
  omega

/-- One process has left the table, and is on record for it. -/
structure Took (s s' : Os) (z : Process) : Prop where
  perm : s.processes.occupants.Perm (z :: s'.processes.occupants)
  reaped : s'.reaped = s.reaped ++ [z.id]
  counter : s'.processIdCounter = s.processIdCounter

theorem Took.allIds_perm (took : s.Took s' z) : s.allIds.Perm s'.allIds := by
  have ids : (s.processes.occupants.map (·.id)).Perm (z.id :: s'.processes.occupants.map (·.id)) :=
    took.perm.map (·.id)
  unfold allIds
  rw [took.reaped, List.append_assoc]
  exact ids.append_left s.reaped

/-- The ids are distinct, and the counter has moved past them. -/
structure Numbered (s : Os) : Prop where
  distinct : s.Distinct
  pos : 0 < s.processIdCounter
  below : ∀ id ∈ s.allIds, id < s.processIdCounter

theorem Numbered.of_perm (h : s.Numbered) (perm : s.allIds.Perm s'.allIds)
    (counter : s'.processIdCounter = s.processIdCounter) : s'.Numbered where
  distinct := (perm.filter _).nodup_iff.mp h.distinct
  pos := counter ▸ h.pos
  below id mem := counter ▸ h.below id (perm.mem_iff.mpr mem)

theorem Took.numbered (took : s.Took s' z) (h : s.Numbered) : s'.Numbered :=
  h.of_perm took.allIds_perm took.counter

/-- Nobody is reaped or lost, and new ids come from the counter; there are new ids only if `may` says so. -/
structure Enrols (may : Prop) (s s' : Os) : Prop where
  reaped : s'.reaped = s.reaped
  keeps : s.ids ⊆ s'.ids
  fresh : ∀ id ∈ s'.ids, id ∈ s.ids ∨ may
  numbered : s.Numbered → s'.Numbered

variable {may : Prop}

instance : Std.Refl (Enrols may) := ⟨fun _ => ⟨rfl, List.Subset.refl _, fun _ => .inl, id⟩⟩

instance : IsTrans Os (Enrols may) where
  trans _ _ _ h h' := by
    refine ⟨h'.reaped.trans h.reaped, List.Subset.trans h.keeps h'.keeps, fun id mem => ?_,
      h'.numbered ∘ h.numbered⟩
    exact (h'.fresh id mem).elim (h.fresh id) .inr

theorem Enrols.allIds_subset (h : s.Enrols may s') : s.allIds ⊆ s'.allIds := by
  unfold allIds
  rw [h.reaped]
  exact List.append_subset.mpr
    ⟨List.subset_append_left _ _, List.Subset.trans h.keeps (List.subset_append_right _ _)⟩

theorem Enrols.of_ids (reaped : s'.reaped = s.reaped) (ids : s'.ids = s.ids)
    (counter : s'.processIdCounter = s.processIdCounter) : s.Enrols may s' := by
  have same : s'.allIds = s.allIds := by rw [allIds, allIds, reaped, ids]
  exact ⟨reaped, ids ▸ List.Subset.refl _, fun _ mem => .inl (ids ▸ mem),
    fun h => h.of_perm (same ▸ .refl _) counter⟩

/-- A new process has the next id, or is a placeholder. -/
theorem Enrols.of_insert {processes : Slots Process maxProcesses} {new : Process} {counter : Nat}
    (ok : s.processes.insert? new = some processes) (fresh : new.id = 0 ∨ new.id = s.processIdCounter)
    (grow : s.processIdCounter ≤ counter) (lt : 0 < s.processIdCounter → new.id < counter) :
    s.Enrols True { s with processes, processIdCounter := counter } := by
  have ids : (processes.occupants.map (·.id)).Perm (new.id :: s.ids) := (Slots.insert?_perm ok).map (·.id)
  have perm : (Os.allIds { s with processes, processIdCounter := counter }).Perm (new.id :: s.allIds) :=
    (ids.append_left s.reaped).trans List.perm_middle
  refine ⟨rfl, fun id mem => ids.mem_iff.mpr (List.mem_cons_of_mem _ mem), fun _ _ => .inr trivial,
    fun h => ?_⟩
  refine ⟨(perm.filter _).nodup_iff.mpr ?_, h.pos.trans_le grow, fun id mem => ?_⟩
  · rw [List.filter_cons]
    split_ifs with nonzero
    · refine List.nodup_cons.mpr ⟨fun mem => ?_, h.distinct⟩
      have below := h.below _ (List.mem_of_mem_filter mem)
      have next := fresh.resolve_left (by simpa using nonzero)
      omega
    · exact h.distinct
  · rcases List.mem_cons.mp (perm.mem_iff.mp mem) with rfl | old
    · exact lt h.pos
    · exact (h.below id old).trans_le grow

theorem enrols_threadFree : ThreadFree (Enrols may) where
  tasks _ _ := .of_ids rfl rfl rfl
  threadId _ _ := .of_ids rfl rfl rfl

theorem enrols_updateProcess {pid : Nat} {f : Process → Process} (id_eq : ∀ p, (f p).id = p.id) :
    Prog.Within (Enrols may) (updateProcess pid f) := by
  refine .modify fun s => .of_ids rfl ?_ rfl
  unfold ids
  rcases s.processes.modify_occupants (·.id == pid) f with ⟨_, same⟩ | ⟨l, a, r, eq, _, _, eq'⟩
  · exact congrArg _ same
  · simp only [eq, eq', List.map_append, List.map_cons, id_eq]

theorem enrols_allocateProcess (parentPid : Nat) (e : Option Status) :
    Prog.Within (Enrols True) (allocateProcess parentPid e) := by
  intro s
  unfold allocateProcess
  cases e with
  | some e =>
    cases ok : s.processes.insert? Process.newDummy with
    | none => exact Std.Refl.refl s
    | some processes => exact .of_insert ok (.inl rfl) le_rfl id
  | none =>
    cases ok : s.processes.insert? (Process.init s.processIdCounter parentPid) with
    | none => exact Std.Refl.refl s
    | some processes => exact .of_insert ok (.inr rfl) (Nat.le_succ _) fun _ => Nat.lt_succ_self _

theorem enrols_launch (parentPid : Nat) (last : LaunchEnd) :
    Prog.Within (Enrols True) (launch parentPid last) :=
  enrols_threadFree.launch enrols_allocateProcess parentPid last

theorem enrols_spawn (last : LaunchEnd) : Prog.Within (Enrols True) (spawn last) :=
  enrols_threadFree.spawn enrols_allocateProcess last

theorem enrols_markProcessZombie (pid : Nat) (code : Int) :
    Prog.Within (Enrols may) (markProcessZombie pid code) := enrols_updateProcess fun _ => rfl

theorem enrols_signalSend (pid sig : Nat) : Prog.Within (Enrols may) (signalSend pid sig) :=
  within_signalSend (enrols_updateProcess fun _ => rfl)

end Os

namespace ProcOp

open Os

/-- The call is one of those that wait for a child. -/
def Waits : ProcOp → Prop
  | .wait4 _ => True
  | .procMgmtWait _ => True
  | _ => False

instance : DecidablePred Waits
  | .wait4 _ | .procMgmtWait _ => isTrue trivial
  | .task _ | .launch _ | .spawn _ | .exec _ | .execve _ | .processCreate _ | .procMgmtCreate _ _ => isFalse id
  | .threadCreate _ _ | .exit _ | .fault | .procMgmtExit _ _ => isFalse id
  | .sigaction _ _ | .raise _ | .kill _ _ | .pause => isFalse id

/-- The call is one of those that make a process. -/
def Creates : ProcOp → Prop
  | .launch _ | .spawn _ | .exec _ | .execve _ | .processCreate _ | .procMgmtCreate _ _ => True
  | _ => False

instance : DecidablePred Creates
  | .launch _ | .spawn _ | .exec _ | .execve _ | .processCreate _ | .procMgmtCreate _ _ => isTrue trivial
  | .task _ | .threadCreate _ _ | .exit _ | .fault | .procMgmtExit _ _ => isFalse id
  | .wait4 _ | .procMgmtWait _ | .sigaction _ _ | .raise _ | .kill _ _ | .pause => isFalse id

/-- No other call reaps a process or gives out an id again. -/
theorem enrols {op : ProcOp} (other : ¬ op.Waits) : Prog.Within (Enrols op.Creates) op.perform := by
  cases op with
  | task op => exact enrols_threadFree.onTasks _
  | launch last => exact (enrols_launch 0 last).bind (R := Enrols True) fun _ => .pure ()
  | spawn last => exact (enrols_spawn last).bind (R := Enrols True) fun _ => .pure ()
  | exec last => exact (enrols_launch 0 last).bind (R := Enrols True) fun _ => enrols_threadFree.onTasks _
  | execve last => exact (enrols_spawn last).bind (R := Enrols True) fun _ => enrols_threadFree.onTasks _
  | processCreate e => exact (enrols_allocateProcess 0 e).bind (R := Enrols True) fun _ => .pure ()
  | procMgmtCreate parentPid e =>
    exact (enrols_allocateProcess parentPid e).bind (R := Enrols True) fun _ => .pure ()
  | threadCreate pid e => exact enrols_threadFree.threadCreate pid e
  | exit code => exact enrols_threadFree.exit (enrols_markProcessZombie · code)
  | fault => exact enrols_threadFree.onTasks _
  | procMgmtExit pid code =>
    exact (within_lookupProcess pid).bind fun _ => enrols_markProcessZombie pid code
  | wait4 | procMgmtWait => exact absurd trivial other
  | sigaction sig handler =>
    exact (within_sigactionSet fun _ _ _ => enrols_updateProcess (by intro; rfl)).bind fun _ => .pure ()
  | raise sig => exact within_raise (enrols_signalSend · sig)
  | kill pid sig => exact within_kill (enrols_signalSend · sig) pid
  | pause => exact enrols_threadFree.pause fun _ => enrols_updateProcess fun p => p.dispatchPending_frame.1

end ProcOp

/-! ## The ids of new processes -/

/-- How the initialisation of the process goes, in a launch that gets so far. -/
def LaunchEnd.initEnd : LaunchEnd → Option (Option Status)
  | .early _ => none
  | .init e => some (some e)
  | .memory _ | .argv _ | .done => some none

namespace Os

variable {s s' s'' : Os} {init : Option (Option Status)}

/-- The id that a call of `allocate_process` puts into the table, if there is such a call. -/
def newIds (s : Os) : Option (Option Status) → List Nat
  | none => []
  | some e => if s.processes.Full then [] else if e.isSome then [0] else [s.processIdCounter]

theorem mem_newIds {id : Nat} (mem : id ∈ s.newIds init) : id = 0 ∨ id = s.processIdCounter := by
  unfold newIds at mem
  grind

/-- The table has just these ids in addition. -/
structure Admits (init : Option (Option Status)) (s s' : Os) : Prop where
  ids : ∀ id, id ∈ s'.ids ↔ id ∈ s.newIds init ∨ id ∈ s.ids
  enrols : s.Enrols True s'

/-- Nothing is put into the table. -/
theorem admits_nothing {α : Type} {m : OsM α} (still : ∀ s, (m s).state = s) :
    Prog.Within (Admits none) m := by
  intro s
  rw [still]
  exact ⟨fun id => by simp [newIds], Std.Refl.refl s⟩

theorem Admits.still (h : s.Admits init s') (h' : s'.Enrols False s'') : s.Admits init s'' where
  ids id := by
    rw [← h.ids]
    exact ⟨fun mem => (h'.fresh id mem).resolve_right not_false, fun mem => h'.keeps mem⟩
  enrols := IsTrans.trans _ _ _ h.enrols ⟨h'.reaped, h'.keeps, fun _ _ => .inr trivial, h'.numbered⟩

theorem Admits.bind {α β : Type} {m : OsM α} {f : α → OsM β} (hm : Prog.Within (Admits init) m)
    (hf : ∀ a, Prog.Within (Enrols False) (f a)) : Prog.Within (Admits init) (m >>= f) :=
  hm.bind_still (fun h h' => h.still h') hf

theorem allocateProcess_admits (parentPid : Nat) (e : Option Status) :
    Prog.Within (Admits (some e)) (allocateProcess parentPid e) := by
  intro s
  refine ⟨fun id => ?_, enrols_allocateProcess parentPid e s⟩
  have full : ∀ {new}, s.processes.insert? new = none → s.processes.Full := Slots.insert?_eq_none.mp
  have room : ∀ {new processes}, s.processes.insert? new = some processes → ¬ s.processes.Full := by
    intro new processes ok full
    cases (Slots.insert?_eq_none.mpr full).symm.trans ok
  have added : ∀ {new : Process} {processes}, s.processes.insert? new = some processes →
      (id ∈ processes.occupants.map (·.id) ↔ id ∈ [new.id] ∨ id ∈ s.ids) := by
    intro new processes ok
    rw [((Slots.insert?_perm ok).map (·.id)).mem_iff, List.map_cons, List.mem_cons, List.mem_singleton]
    rfl
  cases e with
  | some e =>
    cases ok : s.processes.insert? Process.newDummy with
    | none => simp [allocateProcess, newIds, ok, full ok]
    | some processes =>
      simp only [allocateProcess, newIds, ok, if_neg (room ok)]
      exact added ok
  | none =>
    cases ok : s.processes.insert? (Process.init s.processIdCounter parentPid) with
    | none => simp [allocateProcess, newIds, ok, full ok]
    | some processes =>
      simp only [allocateProcess, newIds, ok, if_neg (room ok)]
      exact added ok

theorem launch_admits (parentPid : Nat) (last : LaunchEnd) :
    Prog.Within (Admits last.initEnd) (launch parentPid last) := by
  have start : Prog.Within (Admits (some none)) (allocateProcess parentPid none) :=
    allocateProcess_admits parentPid none
  cases last with
  | early e => exact admits_nothing fun _ => rfl
  | init e => exact allocateProcess_admits parentPid (some e)
  | memory e => exact Admits.bind start fun _ => .throw e
  | argv e => exact Admits.bind start fun pid => (enrols_threadFree.newThread none pid).bind fun _ => .throw e
  | done =>
    exact Admits.bind start fun pid =>
      (enrols_threadFree.newThread none pid).bind fun _ => (enrols_threadFree.onTasks _).bind fun _ => .pure pid

theorem boot_numbered : boot.Numbered where
  distinct := .nil
  pos := by decide
  below id mem := by cases mem

end Os

end CapsuleOS
