import CapsuleOS.Task.Deaths
import CapsuleOS.Task.ProcessRuns

/-!
# Thread slots

Seen from the scheduler, a process call is a few task operations: a launch adds a thread, an exit lets
one die, and waiting for a child is nothing at all. A slot of the thread table that has been taken is
never empty again, so sixteen threads can be added between two boots and no more.
-/
namespace CapsuleOS

open Lib

namespace Scheduler

variable {s s' : Scheduler}

/-- Number of slots with a thread, dead or alive. -/
def occupied (s : Scheduler) : Nat := (Finset.univ.filter fun i => (s.ids i).isSome).card

/-- Number of threads that are not dead. -/
def alive (s : Scheduler) : Nat :=
  (Finset.univ.filter fun i => (s.threads i).any (·.state != .dead)).card

theorem alive_le_occupied (s : Scheduler) : s.alive ≤ s.occupied := by
  refine Finset.card_le_card (Finset.monotone_filter_right _ fun i _ => ?_)
  unfold ids
  cases s.threads i <;> simp

theorem occupied_le (s : Scheduler) : s.occupied ≤ maxThreads :=
  (Finset.card_le_univ _).trans (Fintype.card_fin _).le

theorem occupied_update {i : Fin maxThreads} {id : Nat} (free : s.threads i = none)
    (ids : s'.ids = Function.update s.ids i (some id)) : s'.occupied = s.occupied + 1 := by
  have vacant : s.ids i = none := by rw [Scheduler.ids, free, Option.map_none]
  have grown : (Finset.univ.filter fun j => (s'.ids j).isSome) =
      insert i (Finset.univ.filter fun j => (s.ids j).isSome) := by
    ext j
    rw [ids]
    by_cases here : j = i
    · subst here
      simp
    · simp [here]
  rw [occupied, grown, Finset.card_insert_of_notMem (by simp [vacant])]
  rfl

/-- There is an empty slot as long as not all are taken. -/
theorem findEmptySlot_isSome : s.findEmptySlot ≠ none ↔ s.occupied < maxThreads := by
  have full : s.findEmptySlot = none ↔ s.occupied = maxThreads := by
    have all : s.occupied = maxThreads ↔ ∀ i, (s.threads i).isSome := by
      have card := Finset.card_eq_iff_eq_univ (Finset.univ.filter fun i => (s.ids i).isSome)
      rw [Fintype.card_fin] at card
      rw [occupied, card, Finset.filter_eq_self]
      simp [ids]
    rw [all, findEmptySlot, List.find?_eq_none]
    refine ⟨fun h i => ?_, fun h i _ => ?_⟩
    · have taken := h i (List.mem_finRange i)
      rwa [Bool.not_eq_true, Option.isNone_eq_false_iff] at taken
    · rw [Bool.not_eq_true, Option.isNone_eq_false_iff]
      exact h i
  rw [Ne, full]
  have := s.occupied_le
  omega

end Scheduler

/-! ## Task operations -/

namespace TaskOp

variable {cond : Tasks → TaskOp → Prop} {s : Tasks}

def adds : TaskOp → Bool
  | .add _ => true
  | _ => false

theorem after_append (s : Tasks) (ops ops' : List TaskOp) : after s (ops ++ ops') = after (after s ops) ops' := by
  induction ops generalizing s with
  | nil => rfl
  | cons op ops ih => exact ih _

theorem Follows.append {ops ops' : List TaskOp} (h : Follows cond s ops)
    (h' : Follows cond (after s ops) ops') : Follows cond s (ops ++ ops') := by
  induction ops generalizing s with
  | nil => exact h'
  | cons op ops ih =>
    obtain ⟨meets, enabled, returns, rest⟩ := h
    exact ⟨meets, enabled, returns, ih rest h'⟩

theorem exec_occupied {op : TaskOp} {s' : Tasks} (ran : (op.exec s).Ends s') :
    s'.sched.occupied = s.sched.occupied + if op.adds then 1 else 0 := by
  by_cases new : ∃ thread, op = .add thread
  · obtain ⟨thread, rfl⟩ := new
    obtain ⟨i, free, ids⟩ := Scheduler.add_ids (Tasks.onSched_ends ran)
    rw [Scheduler.occupied_update free ids]
    rfl
  · have same := exec_sameIds (fun thread eq => new ⟨thread, eq⟩) s
    rw [ran.state_eq] at same
    have ids : s'.sched.ids = s.sched.ids := same
    have old : op.adds = false := by
      cases op with
      | add thread => exact absurd ⟨thread, rfl⟩ new
      | _ => rfl
    rw [old, Scheduler.occupied, Scheduler.occupied, ids]
    rfl

/-- Every thread that has been added still has its slot. -/
theorem Follows.occupied {ops : List TaskOp} (run : Follows cond s ops) :
    (after s ops).sched.occupied = s.sched.occupied + ops.countP adds := by
  induction ops generalizing s with
  | nil => rfl
  | cons op ops ih =>
    obtain ⟨_, _, returns, rest⟩ := run
    have step := exec_occupied (Outcome.ends_state returns)
    rw [after, ih rest, step, List.countP_cons]
    omega

end TaskOp

/-! ## Process calls -/

namespace Os

variable {α β : Type} {n k : Nat} {s s' s'' : Os} {m : OsM α} {f : α → OsM β}

/-- The tasks of `s` become those of `s'` by operations of their own, `n` of which add a thread. -/
def Makes (n : Nat) (s s' : Os) : Prop := ∃ ops, TaskOp.Follows (fun _ _ => True) s.tasks ops ∧
  TaskOp.after s.tasks ops = s'.tasks ∧ ops.countP TaskOp.adds = n

theorem Makes.of_tasks (same : s'.tasks = s.tasks) : Makes 0 s s' := ⟨[], trivial, same.symm, rfl⟩

theorem Makes.trans (h : Makes n s s') (h' : Makes k s' s'') : Makes (n + k) s s'' := by
  obtain ⟨ops, run, eq, count⟩ := h
  obtain ⟨ops', run', eq', count'⟩ := h'
  rw [← eq] at run' eq'
  exact ⟨ops ++ ops', run.append run', by rw [TaskOp.after_append, eq'],
    by rw [List.countP_append, count, count']⟩

theorem Makes.op {op : TaskOp} {tasks : Tasks} (enabled : op.Enabled s.tasks)
    (ran : (op.exec s.tasks).Ends tasks) : Makes (if op.adds then 1 else 0) s { s with tasks } := by
  refine ⟨[op], ⟨trivial, enabled, ?_, trivial⟩, ran.state_eq, by simp [List.countP_cons]⟩
  cases out : op.exec s.tasks with
  | fault t =>
    rw [out] at ran
    cases ran
  | _ => rfl

/-- The call makes `n` threads if it returns a value, and none if it returns an error. -/
structure Births (n : Nat) (m : OsM α) : Prop where
  ok : ∀ s a s', m s = .ok a s' → Makes n s s'
  err : ∀ s e s', m s = .err e s' → Makes 0 s s'

theorem Births.of_ends (h : ∀ s s', (m s).Ends s' → Makes 0 s s') : Births 0 m where
  ok s a s' ran := h s s' (by rw [ran]; exact .ok a s')
  err s e s' ran := h s s' (by rw [ran]; exact .err e s')

theorem Births.of_tasks (same : ∀ s, (m s).state.tasks = s.tasks) : Births 0 m where
  ok s a s' ran := .of_tasks (by rw [← same s, ran]; rfl)
  err s e s' ran := .of_tasks (by rw [← same s, ran]; rfl)

theorem Births.pure (a : α) : Births 0 (Pure.pure a : OsM α) := .of_tasks fun _ => rfl

theorem Births.throw (e : Status) : Births 0 (Prog.throw e : OsM α) := .of_tasks fun _ => rfl

/-- What comes first makes no thread, or what follows makes none and cannot fail. -/
theorem Births.bind (hm : Births k m) (hf : ∀ a, Births n (f a))
    (safe : k = 0 ∨ n = 0 ∧ ∀ a, Prog.NoErr (f a)) : Births (k + n) (m >>= f) where
  ok s b s' ran := by
    obtain ⟨a, s₁, first, rest⟩ := Prog.bind_eq_ok ran
    exact (hm.ok s a s₁ first).trans ((hf a).ok s₁ b s' rest)
  err s e s' ran := by
    cases first : m s with
    | ok a s₁ =>
      rw [Prog.bind_ok first] at ran
      rcases safe with rfl | ⟨_, never⟩
      · exact (hm.ok s a _ first).trans ((hf a).err _ e s' ran)
      · exact absurd ran (never a _ e s')
    | err e' s₁ =>
      rw [Prog.bind_err first] at ran
      cases ran
      exact hm.err s e _ first
    | fault s₁ =>
      rw [Prog.bind_fault first] at ran
      cases ran

theorem Births.then (hm : Births 0 m) (hf : ∀ a, Births n (f a)) : Births n (m >>= f) :=
  Nat.zero_add n ▸ hm.bind hf (.inl rfl)

theorem Births.discard (hm : Births n m) : Births n (do let _ ← m) :=
  hm.bind (fun _ => .pure ()) (.inr ⟨rfl, fun _ _ _ _ ran => by cases ran⟩)

theorem Births.get {f : Os → OsM α} (hf : ∀ s, Births n (f s)) : Births n (Prog.get >>= f) :=
  Births.then (m := Prog.get) (.of_tasks fun _ => rfl) hf

/-- A task operation that adds no thread. -/
theorem births_task {op : TaskOp} (enabled : op.Enabled s.tasks) (old : op.adds = false)
    (ran : (onTasks op.exec s).Ends s') : Makes 0 s s' := by
  obtain ⟨tasks, ends, rfl⟩ := Prog.zoom_ends ran
  have made := Makes.op enabled ends
  rwa [old] at made

theorem births_die : Births 0 (onSched Scheduler.die) := .of_ends fun _ _ ran =>
  births_task (show TaskOp.die.Enabled _ from trivial) rfl ran

theorem births_schedule : Births 0 (onSched Scheduler.schedule) := .of_ends fun _ _ ran =>
  births_task (show TaskOp.yield.Enabled _ from trivial) rfl ran

theorem die_noErr : Prog.NoErr (onSched Scheduler.die) :=
  .zoom (.zoom fun _ _ _ ran => Scheduler.schedule_noErr _ _ _ ran)

theorem births_add (thread : Tcb) : Births 1 (onSched (Scheduler.add thread)) where
  ok s a s' ran := by
    have ends : (onTasks (TaskOp.add thread).exec s).Ends s' := by
      rw [show onTasks (TaskOp.add thread).exec s = .ok a s' from ran]
      exact .ok a s'
    obtain ⟨tasks, added, rfl⟩ := Prog.zoom_ends ends
    exact .op (show (TaskOp.add thread).Enabled s.tasks from trivial) added
  err s e s' ran := by
    have never : Prog.NoErr (onSched (Scheduler.add thread)) := by
      refine .zoom (.zoom fun s e t ran => ?_)
      unfold Scheduler.add at ran
      split at ran
      · cases ran
      · split at ran <;> cases ran
    exact absurd ran (never s e s')

theorem births_allocateProcess (parentPid : Nat) (e : Option Status) :
    Births 0 (allocateProcess parentPid e) := .of_tasks fun s => by
  unfold allocateProcess
  cases e with
  | some e => cases s.processes.insert? Process.newDummy <;> rfl
  | none => cases s.processes.insert? (Process.init s.processIdCounter parentPid) <;> rfl

theorem births_newThread (e : Option Status) (pid : Nat) : Births 0 (newThread e pid) :=
  .of_tasks fun s => by cases e <;> rfl

theorem births_currentProcessId : Births 0 currentProcessId := .of_tasks fun s => by
  unfold currentProcessId
  cases s.sched.getCurrentThread <;> rfl

theorem births_lookupProcess (pid : Nat) : Births 0 (lookupProcess pid) := .of_tasks fun s => by
  unfold lookupProcess
  cases s.findProcess pid <;> rfl

theorem births_updateProcess (pid : Nat) (f : Process → Process) : Births 0 (updateProcess pid f) :=
  .of_tasks fun _ => rfl

theorem births_reap (caller : Nat) (pid : Int) : Births 0 (reap caller pid) := .of_tasks fun s => by
  unfold reap
  cases s.processes.take? fun p => p.isChild caller pid && p.reapable <;> rfl

end Os

/-- A launch that comes to its end adds a thread. -/
def LaunchEnd.births (last : LaunchEnd) : Nat := if last = .done then 1 else 0

namespace Os

theorem births_launch (parentPid : Nat) (last : LaunchEnd) : Births last.births (launch parentPid last) := by
  cases last with
  | early e => exact .throw e
  | init e => exact births_allocateProcess parentPid (some e)
  | memory e => exact (births_allocateProcess parentPid none).then fun _ => .throw e
  | argv e =>
    exact (births_allocateProcess parentPid none).then fun pid =>
      (births_newThread none pid).then fun _ => .throw e
  | done =>
    refine (births_allocateProcess parentPid none).then fun pid => ?_
    refine (births_newThread none pid).then fun thread => ?_
    exact (births_add thread).bind (fun _ => .pure pid) (.inr ⟨rfl, fun _ _ _ _ ran => by cases ran⟩)

theorem births_spawn (last : LaunchEnd) : Births last.births (spawn last) :=
  births_currentProcessId.then fun caller =>
    (births_lookupProcess caller).then fun _ => births_launch caller last

theorem births_threadCreate (pid : Nat) (e : Option Status) :
    Births (if e = none then 1 else 0) (threadCreate pid e) := by
  refine (births_lookupProcess pid).then fun p => ?_
  cases e with
  | some e => exact Births.throw e
  | none => exact (births_newThread none p.id).then fun thread => births_add thread

theorem births_exit (code : Int) : Births 0 (exit code) := by
  refine .get fun s => ?_
  cases s.sched.getCurrentThread with
  | none => exact births_die
  | some t => exact (births_updateProcess _ _).then fun _ => births_die

/-- The caller of a call that replaces its program dies. -/
theorem Births.thenDie (hm : Births n m) : Births n (m >>= fun _ => onSched Scheduler.die) :=
  hm.bind (fun _ => births_die) (.inr ⟨rfl, fun _ => die_noErr⟩)

theorem births_procMgmtExit (pid : Nat) (code : Int) : Births 0 (procMgmtExit pid code) :=
  (births_lookupProcess pid).then fun _ => births_updateProcess _ _

theorem births_wait4 (pid : Int) : Births 0 (wait4 pid) := by
  refine births_currentProcessId.then fun caller => ?_
  split_ifs
  · exact .throw _
  refine (births_reap caller pid).then fun p => ?_
  cases p with
  | some p => exact .pure p.id
  | none =>
    refine .get fun s => ?_
    split_ifs
    · exact .throw _
    · exact .throw _

theorem births_procMgmtWait (pid : Int) : Births 0 (procMgmtWait pid) := by
  refine births_currentProcessId.then fun caller => (births_reap caller pid).then fun p => ?_
  cases p with
  | some p => exact .pure _
  | none => exact .throw _

theorem births_sigactionSet (sig handler : Nat) : Births 0 (sigactionSet sig handler) := by
  unfold sigactionSet
  split_ifs
  · exact .throw _
  · refine births_currentProcessId.then fun caller => (births_lookupProcess caller).then fun p => ?_
    exact (births_updateProcess _ _).then fun _ => .pure _
  · exact .throw _

theorem births_signalSend (pid sig : Nat) : Births 0 (signalSend pid sig) := by
  unfold signalSend
  split_ifs
  · exact .throw _
  · exact (births_lookupProcess pid).then fun _ => births_updateProcess _ _

theorem births_raise (sig : Nat) : Births 0 (raise sig) := by
  unfold raise
  split_ifs
  · exact .throw _
  · refine births_currentProcessId.then fun caller => (births_signalSend caller sig).then fun _ => ?_
    refine .get fun s => ?_
    split_ifs
    · exact .throw _
    · exact .pure ()

theorem births_kill (pid : Int) (sig : Nat) : Births 0 (kill pid sig) := by
  refine births_currentProcessId.then fun caller => ?_
  split
  · exact .throw _
  refine .get fun s => ?_
  split
  · have each : ∀ pids : List Nat, Births 0 (Prog.forEach (signalSend · sig) pids) := by
      intro pids
      induction pids with
      | nil => exact .pure ()
      | cons pid pids ih => exact (births_signalSend pid sig).then fun _ => ih
    refine (each _).then fun _ => ?_
    split
    · exact .throw _
    · exact .pure ()
  · change Births 0 (if pid.toNat = caller then _ else _)
    split
    · exact births_signalSend _ _
    · refine (births_lookupProcess _).then fun p => ?_
      split
      · exact .throw _
      · exact births_signalSend _ _

theorem births_pause : Births 0 pause := by
  refine births_currentProcessId.then fun caller => (births_lookupProcess caller).then fun p => ?_
  split_ifs
  · exact .pure ()
  refine (births_updateProcess _ _).then fun _ => ?_
  split_ifs
  · exact .pure ()
  · exact births_schedule

end Os

/-! ## Runs -/

/-- The machine with the number of threads that have been added since boot. -/
structure ThreadTrace where
  os : Os
  added : Nat

namespace ProcOp

/-- The number of threads that a call adds when it returns a value. -/
def births : ProcOp → Nat
  | .launch last => last.births
  | .spawn last => last.births
  | .exec last => last.births
  | .execve last => last.births
  | .threadCreate _ stackError => if stackError = none then 1 else 0
  | _ => 0

def counted (op : ProcOp) : Prog ThreadTrace Status Unit := fun tr =>
  match op.perform tr.os with
  | .ok () s => .ok () ⟨s, tr.added + op.births⟩
  | .err e s => .err e ⟨s, tr.added⟩
  | .fault s => .fault ⟨s, tr.added⟩

/-- The process calls with the threads counted. -/
def threadSystem : Stepper ThreadTrace Status ProcOp := ⟨counted, fun tr op => op.Enabled tr.os⟩

instance (tr : ThreadTrace) (op : ProcOp) : Decidable (threadSystem.Enabled tr op) :=
  inferInstanceAs (Decidable (op.Enabled tr.os))

open Os

theorem perform_births {op : ProcOp} (new : ∀ op', op ≠ .task op') : Births op.births op.perform := by
  cases op with
  | task op' => exact absurd rfl (new op')
  | launch last => exact (births_launch 0 last).discard
  | spawn last => exact (births_spawn last).discard
  | exec last => exact (births_launch 0 last).thenDie
  | execve last => exact (births_spawn last).thenDie
  | processCreate e => exact (births_allocateProcess 0 e).discard
  | procMgmtCreate parentPid e => exact (births_allocateProcess parentPid e).discard
  | threadCreate pid e => exact births_threadCreate pid e
  | exit code => exact births_exit code
  | fault => exact births_die
  | procMgmtExit pid code => exact births_procMgmtExit pid code
  | wait4 pid => exact (births_wait4 pid).discard
  | procMgmtWait pid => exact (births_procMgmtWait pid).discard
  | sigaction sig handler => exact (births_sigactionSet sig handler).discard
  | raise sig => exact births_raise sig
  | kill pid sig => exact births_kill pid sig
  | pause => exact births_pause

/-- A step is made of task operations, as many of them additions as have been counted. -/
theorem counted_makes {op : ProcOp} {tr tr' : ThreadTrace} (step : threadSystem.Steps op tr tr') :
    ∃ n, tr'.added = tr.added + n ∧ Makes n tr.os tr'.os := by
  have enabled : op.Enabled tr.os := step.enabled
  have ran : (counted op tr).Ends tr' := step.ran
  unfold counted at ran
  by_cases task : ∃ op', op = .task op'
  · obtain ⟨op', rfl⟩ := task
    have fine : op'.Enabled tr.os.tasks ∧ op'.adds = false := by
      cases op' with
      | add | die => exact enabled.elim
      | _ => exact ⟨enabled, rfl⟩
    have made : ∀ s, (onTasks op'.exec tr.os).Ends s → Makes 0 tr.os s := fun s ends =>
      births_task fine.1 fine.2 ends
    rw [show (ProcOp.task op').perform = onTasks op'.exec from rfl] at ran
    cases out : onTasks op'.exec tr.os with
    | ok u s =>
      rw [out] at ran
      cases ran
      exact ⟨0, rfl, made s (by rw [out]; exact .ok u s)⟩
    | err e s =>
      rw [out] at ran
      cases ran
      exact ⟨0, rfl, made s (by rw [out]; exact .err e s)⟩
    | fault s =>
      rw [out] at ran
      cases ran
  · have births := perform_births fun op' eq => task ⟨op', eq⟩
    cases out : op.perform tr.os with
    | ok u s =>
      rw [out] at ran
      cases ran
      exact ⟨op.births, rfl, births.ok _ u s out⟩
    | err e s =>
      rw [out] at ran
      cases ran
      exact ⟨0, rfl, births.err _ e s out⟩
    | fault s =>
      rw [out] at ran
      cases ran

theorem makes_of_run {tr : ThreadTrace} (run : threadSystem.Run (fun _ _ => True) ⟨Os.boot, 0⟩ tr) :
    Makes tr.added Os.boot tr.os := by
  refine run.invariant (I := fun tr => Makes tr.added Os.boot tr.os) (.of_tasks rfl) ?_
  intro op tr tr' made _ step
  obtain ⟨n, added, more⟩ := counted_makes step
  rw [added]
  exact made.trans more

end ProcOp

/-- In every state that calls of processes reach, adding a thread does not panic as long as fewer than
sixteen threads are alive, exactly when fewer than sixteen threads have been added since boot (or all
sixteen are alive, and nothing is asked). -/
theorem add_has_room_iff (tr : ThreadTrace)
    (run : ProcOp.threadSystem.Run (fun _ _ => True) ⟨Os.boot, 0⟩ tr) :
    (tr.os.sched.alive < maxThreads → ∀ thread, (Scheduler.add thread tr.os.sched).faulted = false) ↔
      tr.added < maxThreads ∨ tr.os.sched.alive = maxThreads := by
  obtain ⟨ops, follows, reached, count⟩ := ProcOp.makes_of_run run
  have occupied : tr.os.sched.occupied = tr.added := by
    have all := follows.occupied
    rw [reached, count] at all
    exact all.trans (Nat.zero_add _)
  have orderly : tr.os.sched.Orderly := by
    have ran := TaskOp.Run.start.follow follows
    rw [reached] at ran
    exact (ran.orderly Scheduler.new_orderly Scheduler.new_awake).1
  have living := tr.os.sched.alive_le_occupied
  have bound := tr.os.sched.occupied_le
  constructor
  · intro room
    by_contra full
    have none_left : tr.os.sched.findEmptySlot = none := by
      by_contra some_left
      have := Scheduler.findEmptySlot_isSome.mp some_left
      omega
    have panics := room (by omega) (Tcb.demo 0)
    simp [Scheduler.add, none_left, Outcome.faulted] at panics
  · intro few few_alive thread
    have some_left := (Scheduler.findEmptySlot_isSome (s := tr.os.sched)).mpr (by omega)
    obtain ⟨i, slot⟩ := Option.ne_none_iff_exists'.mp some_left
    rw [Scheduler.add_eq orderly slot thread]
    rfl

/-- A shell starts `n` commands, one after the other, and waits for each. -/
def ProcOp.session (n : Nat) : List ProcOp :=
  [.launch .done, .task .run] ++ (List.replicate n [.spawn .done, .task .tick, .exit 0, .wait4 (-1)]).flatten

def ThreadTrace.session (n : Nat) : ThreadTrace :=
  ProcOp.threadSystem.after ⟨Os.boot, 0⟩ (ProcOp.session n)

theorem add_has_room_iff_session : (ThreadTrace.session 14).added = 15 ∧
    ∀ thread, (Scheduler.add thread (ThreadTrace.session 14).os.sched).faulted = false := by
  have follows : ProcOp.threadSystem.Follows (fun _ _ => True) ⟨Os.boot, 0⟩ (ProcOp.session 14) := by
    decide +kernel
  have run := Stepper.Run.start.follow follows
  have added : (ThreadTrace.session 14).added = 15 := by decide +kernel
  have few : (ThreadTrace.session 14).os.sched.alive = 1 := by decide +kernel
  exact ⟨added, (add_has_room_iff (ThreadTrace.session 14) run).mpr (.inl (by rw [added]; decide)) (by rw [few]; decide)⟩

/-- After fifteen commands only the shell is alive, every command has been waited for, and the next
launch panics. -/
theorem sixteenth_command_panics : ¬ ∀ tr : ThreadTrace,
    ProcOp.threadSystem.Run (fun _ _ => True) ⟨Os.boot, 0⟩ tr → tr.os.sched.alive < maxThreads →
      ∀ thread, (Scheduler.add thread tr.os.sched).faulted = false := by
  intro all
  have follows : ProcOp.threadSystem.Follows (fun _ _ => True) ⟨Os.boot, 0⟩ (ProcOp.session 15) := by
    decide +kernel
  have run := Stepper.Run.start.follow follows
  have few : (ThreadTrace.session 15).os.sched.alive = 1 := by decide +kernel
  have room := all (ThreadTrace.session 15) run (by rw [few]; decide) (Tcb.demo 0)
  have panics : (Scheduler.add (Tcb.demo 0) (ThreadTrace.session 15).os.sched).faulted = true := by
    decide +kernel
  rw [panics] at room
  cases room

end CapsuleOS
