import CapsuleOS.Task.Fates
import CapsuleOS.Task.ProcessFrames
import CapsuleOS.Task.TaskRuns

/-!
# Runs of processes

Two properties tie a process to its threads. A zombie or reaped process is at rest when all its
threads are dead; a process is accounted for when it becomes a zombie as soon as its last thread has
died. The calls keep neither by themselves: `PROC_MGMT_EXIT` and a signal end a process whose threads
go on, `sys_exit` one whose other threads go on, and `sys_exec`, `sys_execve` and a fault at EL0 kill
a thread and say nothing about the process.
-/
namespace CapsuleOS

open Lib

namespace Os

/-- A zombie, or reaped already. -/
def Gone (s : Os) (pid : Nat) : Prop :=
  pid ∈ s.reaped ∨ ∃ p ∈ s.processes.occupants, p.id = pid ∧ p.state = .zombie

/-- Every thread with this process id is dead. -/
def AllDead (s : Os) (pid : Nat) : Prop := ∀ i dead, s.sched.fates i = some (pid, dead) → dead = true

/-- Every thread of a zombie or reaped process is dead. -/
def AtRest (s : Os) : Prop := ∀ pid, s.Gone pid → s.AllDead pid

/-- A process that had a thread and has none left can be reaped. -/
def Accounted (s : Os) : Prop := ∀ p ∈ s.processes.occupants,
  (∃ i dead, s.sched.fates i = some (p.id, dead)) → s.AllDead p.id → p.reapable = true

/-- The ids in use come from the counter, and two processes share none but that of a placeholder. -/
structure Sound (s : Os) : Prop where
  lively : s.sched.Lively
  pos : 0 < s.processIdCounter
  process_lt : ∀ p ∈ s.processes.occupants, p.id < s.processIdCounter
  reaped_lt : ∀ pid ∈ s.reaped, pid < s.processIdCounter
  thread : ∀ i pid dead, s.sched.fates i = some (pid, dead) → pid ≠ 0 ∧ pid < s.processIdCounter
  uniq : ((s.processes.occupants.map (·.id)).filter (· ≠ 0)).Nodup

/-- What one step keeps: rest if `quiet`, account if `noted`. -/
structure Kept (quiet noted : Prop) (s s' : Os) : Prop where
  sound : s'.Sound
  rest : quiet → s.AtRest → s'.AtRest
  accounted : noted → s.Accounted → s'.Accounted

/-- A step that keeps everything. -/
def Stays (s s' : Os) : Prop := s.Sound → Kept True True s s'

variable {quiet noted : Prop} {s s₁ s' : Os}

theorem Kept.refl (h : s.Sound) : Kept quiet noted s s := ⟨h, fun _ rest => rest, fun _ acc => acc⟩

theorem Kept.trans (h : Kept quiet noted s s₁) (h' : Kept quiet noted s₁ s') :
    Kept quiet noted s s' :=
  ⟨h'.sound, fun q rest => h'.rest q (h.rest q rest), fun n acc => h'.accounted n (h.accounted n acc)⟩

theorem Kept.weaken {quiet' noted' : Prop} (h : Kept quiet noted s s') (q : quiet' → quiet)
    (n : noted' → noted) : Kept quiet' noted' s s' :=
  ⟨h.sound, fun hq => h.rest (q hq), fun hn => h.accounted (n hn)⟩

theorem Stays.kept (h : Stays s s') (sound : s.Sound) : Kept quiet noted s s' :=
  (h sound).weaken (fun _ => trivial) fun _ => trivial

instance : Std.Refl Stays := ⟨fun _ h => .refl h⟩

instance : IsTrans Os Stays := ⟨fun _ _ _ h h' sound => (h sound).trans (h' (h sound).sound)⟩

theorem kept_of_within {α : Type} {m : OsM α} (h : Prog.Within Stays m) (sound : s.Sound)
    (ran : (m s).Ends s') : Kept quiet noted s s' := by
  have rel := h s
  rw [ran.state_eq] at rel
  exact rel.kept sound

theorem Sound.unique (h : s.Sound) {p q : Process} (hp : p ∈ s.processes.occupants)
    (hq : q ∈ s.processes.occupants) (eq : p.id = q.id) (pos : p.id ≠ 0) : p = q := by
  have nodup := h.uniq
  rw [List.filter_map] at nodup
  exact List.inj_on_of_nodup_map nodup (by simpa using ⟨hp, pos⟩)
    (by simpa using ⟨hq, eq ▸ pos⟩) eq

/-! ## Threads -/

/-- A change of the scheduler that brings no birth, death or revival. -/
theorem stays_of_fates {tasks : Tasks} {n : Nat} (h : s.sched.SameFates tasks.sched) :
    Stays s { s with tasks, threadIdCounter := n } := by
  intro sound
  obtain ⟨lively, fates⟩ := h sound.lively
  have same : ({ s with tasks, threadIdCounter := n } : Os).sched.fates = s.sched.fates := fates
  refine ⟨⟨lively, sound.pos, sound.process_lt, sound.reaped_lt, ?_, sound.uniq⟩, fun _ rest => ?_,
    fun _ acc => ?_⟩
  · rw [same]
    exact sound.thread
  · intro pid gone i dead fate
    exact rest pid gone i dead (same ▸ fate)
  · intro p mem some_thread all
    unfold AllDead at all
    rw [same] at some_thread all
    exact acc p mem some_thread all

theorem onTasks_stays {α : Type} {m : TaskM α} (h : Prog.Within Tasks.SameFates m) :
    Prog.Within Stays (onTasks m) := h.zoom fun _ _ rel => stays_of_fates rel

/-- One thread with a process id is set to `dead`, in the slot `i`. -/
theorem update_fate_inv {fates : Fin maxThreads → Option (Nat × Bool)} {i j : Fin maxThreads}
    {pid pid' : Nat} {dead dead' : Bool}
    (h : Function.update fates i (some (pid, dead)) j = some (pid', dead')) :
    (j = i ∧ pid' = pid ∧ dead' = dead) ∨ (j ≠ i ∧ fates j = some (pid', dead')) := by
  by_cases eq : j = i
  · subst eq
    rw [Function.update_self] at h
    cases h
    exact Or.inl ⟨rfl, rfl, rfl⟩
  · rw [Function.update_of_ne eq] at h
    exact Or.inr ⟨eq, h⟩

/-- A thread is born or made ready in the slot `i`. -/
theorem kept_of_alive {tasks : Tasks} {i : Fin maxThreads} {pid : Nat} (sound : s.Sound)
    (lively : tasks.sched.Lively) (pos : pid ≠ 0) (lt : pid < s.processIdCounter)
    (old : ∀ pid' dead, s.sched.fates i = some (pid', dead) → pid' = pid)
    (fates : tasks.sched.fates = Function.update s.sched.fates i (some (pid, false))) :
    Kept (s.Gone pid → ∃ j, s.sched.fates j = some (pid, false)) True s { s with tasks } := by
  have same : ({ s with tasks } : Os).sched.fates =
    Function.update s.sched.fates i (some (pid, false)) := fates
  refine ⟨⟨lively, sound.pos, sound.process_lt, sound.reaped_lt, ?_, sound.uniq⟩, ?_, ?_⟩
  · rw [same]
    intro j pid' dead fate
    rcases update_fate_inv fate with ⟨_, rfl, _⟩ | ⟨_, fate⟩
    · exact ⟨pos, lt⟩
    · exact sound.thread j pid' dead fate
  · intro quiet rest pid' gone j dead fate
    rw [same] at fate
    rcases update_fate_inv fate with ⟨_, rfl, rfl⟩ | ⟨_, fate⟩
    · obtain ⟨k, alive⟩ := quiet gone
      exact rest _ gone k false alive
    · exact rest pid' gone j dead fate
  · intro _ acc p mem some_thread all
    unfold AllDead at all
    rw [same] at some_thread all
    -- a process with the new thread is not one whose threads are all dead
    have ne : p.id ≠ pid := by
      intro eq
      have dead := all i false (by rw [eq, Function.update_self])
      cases dead
    obtain ⟨j, dead, fate⟩ := some_thread
    rcases update_fate_inv fate with ⟨_, eq, _⟩ | ⟨_, fate⟩
    · exact absurd eq ne
    · refine acc p mem ⟨j, dead, fate⟩ fun k dead' fate' => ?_
      have away : k ≠ i := by
        rintro rfl
        exact ne (old _ _ fate')
      exact all k dead' (by rw [Function.update_of_ne away]; exact fate')

/-- The process id of the running thread, another thread of which is alive, or which is reapable. -/
def Survived (s : Os) : Prop := ∀ i t, s.sched.currentIdx = some i → s.sched.threads i = some t →
  (∃ j, j ≠ i ∧ s.sched.fates j = some (t.processId, false)) ∨
    ∀ p ∈ s.processes.occupants, p.id = t.processId → p.reapable = true

theorem onSched_ends {α : Type} {m : SchedM α} (ran : (onSched m s).Ends s') :
    ∃ sched, (m s.sched).Ends sched ∧ s' = { s with tasks := { s.tasks with sched } } := by
  unfold onSched onTasks at ran
  obtain ⟨tasks, ends, rfl⟩ := Prog.zoom_ends ran
  unfold Tasks.onSched at ends
  obtain ⟨sched, ran', rfl⟩ := Prog.zoom_ends ends
  exact ⟨sched, ran', rfl⟩

theorem die_kept (sound : s.Sound) (ran : (onSched Scheduler.die s).Ends s') :
    Kept True s.Survived s s' := by
  obtain ⟨sched, ends, rfl⟩ := onSched_ends ran
  obtain ⟨lively, ⟨_, fates⟩ | ⟨i, t, cur, ht, fates⟩⟩ := Scheduler.die_fates sound.lively ends
  · exact (stays_of_fates (n := s.threadIdCounter) fun _ => ⟨lively, fates⟩).kept sound
  · have here := Scheduler.fates_of_thread ht
    obtain ⟨pos, lt⟩ := sound.thread _ _ _ here
    have same : ({ s with tasks := { s.tasks with sched } } : Os).sched.fates =
      Function.update s.sched.fates i (some (t.processId, true)) := fates
    refine ⟨⟨lively, sound.pos, sound.process_lt, sound.reaped_lt, ?_, sound.uniq⟩, ?_, ?_⟩
    · rw [same]
      intro j pid dead fate
      rcases update_fate_inv fate with ⟨_, rfl, _⟩ | ⟨_, fate⟩
      · exact ⟨pos, lt⟩
      · exact sound.thread j pid dead fate
    · intro _ rest pid gone j dead fate
      rw [same] at fate
      rcases update_fate_inv fate with ⟨_, _, rfl⟩ | ⟨_, fate⟩
      · rfl
      · exact rest pid gone j dead fate
    · intro survived acc p mem some_thread all
      unfold AllDead at all
      rw [same] at some_thread all
      by_cases eq : p.id = t.processId
      · rcases survived i t cur ht with ⟨j, away, alive⟩ | reapable
        · have dead := all j false (by rw [eq, Function.update_of_ne away]; exact alive)
          cases dead
        · exact reapable p mem eq
      · -- the threads of another process are what they were
        obtain ⟨k, dead, fate⟩ := some_thread
        rcases update_fate_inv fate with ⟨_, eq', _⟩ | ⟨_, fate⟩
        · exact absurd eq' eq
        refine acc p mem ⟨k, dead, fate⟩ fun j dead' fate' => ?_
        have ne : j ≠ i := by
          rintro rfl
          have both := here.symm.trans fate'
          simp only [Option.some.injEq, Prod.mk.injEq] at both
          exact eq both.1.symm
        exact all j dead' (by rw [Function.update_of_ne ne]; exact fate')

/-! ## The process table -/

/-- The table loses nothing of what the two properties say. -/
theorem processes_kept {processes : Slots Process maxProcesses} (counter : Nat) (reaped : List Nat)
    (sound : s.Sound) (grow : s.processIdCounter ≤ counter)
    (lt : ∀ p ∈ processes.occupants, p.id < counter)
    (reaped_lt : ∀ pid ∈ reaped, pid < counter)
    (uniq : ((processes.occupants.map (·.id)).filter (· ≠ 0)).Nodup)
    (gone : quiet → s.AtRest → ∀ pid,
      ({ s with processes, reaped } : Os).Gone pid → s.Gone pid ∨ s.AllDead pid)
    (reapable : noted → ∀ p ∈ processes.occupants, p.reapable = true ∨
      (∀ i dead, s.sched.fates i ≠ some (p.id, dead)) ∨
      ∃ q ∈ s.processes.occupants, q.id = p.id ∧ (q.reapable = true → p.reapable = true)) :
    Kept quiet noted s { s with processes, processIdCounter := counter, reaped } := by
  refine ⟨⟨sound.lively, sound.pos.trans_le grow, lt, reaped_lt, fun i pid dead fate => ?_, uniq⟩,
    fun q rest pid gone' => ?_, fun n acc p mem some_thread all => ?_⟩
  · have old := sound.thread i pid dead fate
    exact ⟨old.1, old.2.trans_le grow⟩
  · rcases gone q rest pid gone' with old | dead
    · exact rest pid old
    · exact dead
  · rcases reapable n p mem with done | none_ | ⟨q, hq, eq, keep⟩
    · exact done
    · obtain ⟨i, dead, fate⟩ := some_thread
      exact absurd fate (none_ i dead)
    · refine keep (acc q hq ?_ ?_)
      · rw [eq]
        exact some_thread
      · rw [eq]
        exact all

theorem filter_ids_nodup {l l' : List Process} (perm : l'.Perm l)
    (h : ((l.map (·.id)).filter (· ≠ 0)).Nodup) : ((l'.map (·.id)).filter (· ≠ 0)).Nodup :=
  ((perm.map _).filter _).nodup_iff.mpr h

theorem gone_of_insert {processes : Slots Process maxProcesses} {new : Process}
    (ok : s.processes.insert? new = some processes) (state : new.state ≠ .zombie) {pid : Nat}
    (gone : ({ s with processes } : Os).Gone pid) : s.Gone pid := by
  rcases gone with old | ⟨p, mem, eq, zombie⟩
  · exact Or.inl old
  · rcases List.mem_cons.mp ((Slots.insert?_perm ok).mem_iff.mp mem) with rfl | old
    · exact absurd zombie state
    · exact Or.inr ⟨p, old, eq, zombie⟩

/-- A new entry whose id is no thread's; a placeholder, or the next id. -/
theorem insert_kept {processes : Slots Process maxProcesses} {counter : Nat} {new : Process}
    (sound : s.Sound) (grow : s.processIdCounter ≤ counter)
    (ok : s.processes.insert? new = some processes) (fresh : new.id = 0 ∨ new.id = s.processIdCounter)
    (lt : new.id < counter) (state : new.state ≠ .zombie) :
    Kept quiet noted s { s with processes, processIdCounter := counter } := by
  have perm := Slots.insert?_perm ok
  have inv : ∀ {p}, p ∈ processes.occupants → p = new ∨ p ∈ s.processes.occupants :=
    fun mem => List.mem_cons.mp (perm.mem_iff.mp mem)
  refine processes_kept counter s.reaped sound grow ?_ ?_ ?_ ?_ ?_
  · intro p mem
    rcases inv mem with rfl | old
    · exact lt
    · exact (sound.process_lt p old).trans_le grow
  · exact fun pid mem => (sound.reaped_lt pid mem).trans_le grow
  · refine filter_ids_nodup perm ?_
    rw [List.map_cons, List.filter_cons]
    split_ifs with nonzero
    · refine List.nodup_cons.mpr ⟨fun mem => ?_, sound.uniq⟩
      have eq : new.id = s.processIdCounter := fresh.resolve_left (by simpa using nonzero)
      obtain ⟨p, hp, same⟩ := List.mem_map.mp (List.mem_of_mem_filter mem)
      have below := sound.process_lt p hp
      omega
    · exact sound.uniq
  · exact fun _ _ pid gone => Or.inl (gone_of_insert ok state gone)
  · intro _ p mem
    right
    rcases inv mem with rfl | old
    · left
      intro i dead fate
      have thread := sound.thread i _ dead fate
      omega
    · exact Or.inr ⟨p, old, rfl, id⟩

theorem allocateProcess_stays (parentPid : Nat) (e : Option Status) :
    Prog.Within Stays (allocateProcess parentPid e) := by
  intro s sound
  unfold allocateProcess
  cases e with
  | some e =>
    cases ok : s.processes.insert? Process.newDummy with
    | none => exact .refl sound
    | some processes => exact insert_kept sound le_rfl ok (Or.inl rfl) sound.pos (by decide)
  | none =>
    cases ok : s.processes.insert? (Process.init s.processIdCounter parentPid) with
    | none => exact .refl sound
    | some processes =>
      exact insert_kept sound (Nat.le_succ _) ok (Or.inr rfl) (Nat.lt_succ_self _)
        (by simp [Process.init, Process.newDummy])

/-- The first process with an id is changed. -/
theorem update_kept {pid : Nat} {f : Process → Process} (sound : s.Sound)
    (id_eq : ∀ p, (f p).id = p.id)
    (dying : quiet → ∀ p ∈ s.processes.occupants, p.id = pid → (f p).state = .zombie →
      p.state = .zombie ∨ s.AllDead pid)
    (keep : noted → ∀ p, p.reapable = true → (f p).reapable = true) :
    Kept quiet noted s { s with processes := s.processes.modify (·.id == pid) f } := by
  rcases s.processes.modify_occupants (·.id == pid) f with ⟨_, same⟩ | ⟨l, a, r, eq, _, ha, eq'⟩
  · refine processes_kept s.processIdCounter s.reaped sound le_rfl ?_
      sound.reaped_lt ?_ ?_ ?_
    · rw [same]
      exact sound.process_lt
    · rw [same]
      exact sound.uniq
    · intro _ _ pid' gone
      unfold Gone at gone
      rw [same] at gone
      exact Or.inl gone
    · intro _ p mem
      rw [same] at mem
      exact Or.inr (Or.inr ⟨p, mem, rfl, id⟩)
  · have inv : ∀ {p}, p ∈ (s.processes.modify (·.id == pid) f).occupants →
        p = f a ∨ p ∈ s.processes.occupants := by
      intro p mem
      rw [eq'] at mem
      rw [eq]
      grind
    have mem_a : a ∈ s.processes.occupants := by
      rw [eq]
      simp
    have id_a : a.id = pid := by simpa using ha
    refine processes_kept s.processIdCounter s.reaped sound le_rfl ?_
      sound.reaped_lt ?_ ?_ ?_
    · intro p mem
      rcases inv mem with rfl | old
      · rw [id_eq]
        exact sound.process_lt a mem_a
      · exact sound.process_lt p old
    · have ids : (s.processes.modify (·.id == pid) f).occupants.map (·.id) =
          s.processes.occupants.map (·.id) := by simp [eq', eq, id_eq]
      rw [ids]
      exact sound.uniq
    · intro q _ pid' gone
      rcases gone with old | ⟨p, mem, eq_id, zombie⟩
      · exact Or.inl (Or.inl old)
      · rcases inv mem with rfl | old
        · have same_id : pid' = pid := by rw [← eq_id, id_eq, id_a]
          subst same_id
          rcases dying q a mem_a id_a zombie with was | dead
          · exact Or.inl (Or.inr ⟨a, mem_a, id_a, was⟩)
          · exact Or.inr dead
        · exact Or.inl (Or.inr ⟨p, old, eq_id, zombie⟩)
    · intro n p mem
      right
      right
      rcases inv mem with rfl | old
      · exact ⟨a, mem_a, (id_eq a).symm, keep n a⟩
      · exact ⟨p, old, rfl, id⟩

/-- A change that leaves the end of the process to others. -/
theorem updateProcess_stays {pid : Nat} {f : Process → Process} (id_eq : ∀ p, (f p).id = p.id)
    (state : ∀ p, (f p).state = p.state) (code : ∀ p, (f p).exitStatus = p.exitStatus) :
    Prog.Within Stays (updateProcess pid f) := by
  intro s sound
  refine update_kept sound id_eq (fun _ p _ _ zombie => ?_) fun _ p reapable => ?_
  · rw [state] at zombie
    exact Or.inl zombie
  · unfold Process.reapable at *
    rw [state, code]
    exact reapable

theorem reap_stays (caller : Nat) (pid : Int) : Prog.Within Stays (reap caller pid) := by
  intro s sound
  unfold reap
  cases taken : s.processes.take? fun p => p.isChild caller pid && p.reapable with
  | none => exact .refl sound
  | some r =>
    obtain ⟨p, processes⟩ := r
    have perm := Slots.take?_perm taken
    have fits := List.find?_some ((Slots.find?_eq _ _).symm.trans (Slots.take?_find taken))
    have zombie : p.state = .zombie := by
      simp only [Process.reapable, Bool.and_eq_true, beq_iff_eq] at fits
      exact fits.2.2
    have mem_p : p ∈ s.processes.occupants := perm.mem_iff.mpr List.mem_cons_self
    have sub : ∀ {q}, q ∈ processes.occupants → q ∈ s.processes.occupants :=
      fun mem => perm.mem_iff.mpr (List.mem_cons_of_mem _ mem)
    refine processes_kept s.processIdCounter (s.reaped ++ [p.id]) sound le_rfl
      (fun q mem => sound.process_lt q (sub mem)) ?_ ?_ ?_ ?_
    · intro q mem
      rcases List.mem_append.mp mem with old | new
      · exact sound.reaped_lt q old
      · cases List.mem_singleton.mp new
        exact sound.process_lt p mem_p
    · have all := filter_ids_nodup perm.symm sound.uniq
      rw [List.map_cons, List.filter_cons] at all
      split_ifs at all
      · exact (List.nodup_cons.mp all).2
      · exact all
    · intro _ _ q gone
      left
      rcases gone with mem | ⟨r, mem, eq, dead⟩
      · rcases List.mem_append.mp mem with old | new
        · exact Or.inl old
        · cases List.mem_singleton.mp new
          exact Or.inr ⟨p, mem_p, rfl, zombie⟩
      · exact Or.inr ⟨r, sub mem, eq, dead⟩
    · exact fun _ q mem => Or.inr (Or.inr ⟨q, sub mem, rfl, id⟩)

/-! ## Calls -/

theorem newThread_stays (e : Option Status) (pid : Nat) : Prog.Within Stays (newThread e pid) := by
  intro s
  cases e with
  | some e => exact Std.Refl.refl s
  | none => exact stays_of_fates (Std.Refl.refl s.sched)

/-- A thread is added to a process. -/
theorem add_kept {thread : Tcb} (sound : s.Sound) (pos : thread.processId ≠ 0)
    (lt : thread.processId < s.processIdCounter) (ran : (onSched (Scheduler.add thread) s).Ends s') :
    Kept (¬ s.Gone thread.processId) True s s' := by
  obtain ⟨sched, ends, rfl⟩ := onSched_ends ran
  obtain ⟨lively, i, empty, fates⟩ := Scheduler.add_fates sound.lively ends
  have none_old : ∀ pid dead, s.sched.fates i = some (pid, dead) → pid = thread.processId := by
    intro pid dead fate
    rw [empty] at fate
    cases fate
  exact (kept_of_alive sound lively pos lt none_old fates).weaken (fun away gone => absurd gone away) id

theorem allocateProcess_ok {parentPid pid : Nat} {e : Option Status}
    (ok : allocateProcess parentPid e s = .ok pid s') : pid = s.processIdCounter ∧
      ∃ processes, s.processes.insert? (Process.init pid parentPid) = some processes ∧
        s' = { s with processes, processIdCounter := s.processIdCounter + 1 } := by
  unfold allocateProcess at ok
  cases e with
  | some e =>
    simp only at ok
    split at ok <;> cases ok
  | none =>
    cases inserted : s.processes.insert? (Process.init s.processIdCounter parentPid) with
    | none =>
      simp only [inserted] at ok
      cases ok
    | some processes =>
      simp only [inserted] at ok
      cases ok
      exact ⟨rfl, processes, inserted, rfl⟩

/-- The id of a new process is nobody's. -/
theorem Sound.fresh (sound : s.Sound) : ¬ s.Gone s.processIdCounter := by
  rintro (mem | ⟨p, mem, eq, _⟩)
  · exact lt_irrefl _ (sound.reaped_lt _ mem)
  · have := sound.process_lt p mem
    omega

/-- A launch that returns a process id. -/
theorem launch_ok {parentPid pid : Nat} {last : LaunchEnd} (ok : launch parentPid last s = .ok pid s') :
    last = .done ∧ ∃ processes sched,
      s.processes.insert? (Process.init s.processIdCounter parentPid) = some processes ∧
        (Scheduler.add (Tcb.newUser s.threadIdCounter s.processIdCounter) s.sched).Ends sched ∧
        s' = { s with
          tasks := { s.tasks with sched }
          processes
          processIdCounter := s.processIdCounter + 1
          threadIdCounter := s.threadIdCounter + 1 } := by
  cases last with
  | early e => cases ok
  | init e =>
    unfold launch allocateProcess at ok
    simp only at ok
    split at ok <;> cases ok
  | memory e =>
    obtain ⟨_, _, _, bad⟩ := Prog.bind_eq_ok ok
    cases bad
  | argv e =>
    obtain ⟨_, _, _, rest⟩ := Prog.bind_eq_ok ok
    obtain ⟨_, _, _, bad⟩ := Prog.bind_eq_ok rest
    cases bad
  | done =>
    obtain ⟨_, s₁, allocated, rest⟩ := Prog.bind_eq_ok ok
    obtain ⟨rfl, processes, inserted, rfl⟩ := allocateProcess_ok allocated
    obtain ⟨_, s₂, made, rest⟩ := Prog.bind_eq_ok rest
    cases made
    obtain ⟨_, s₃, added, rest⟩ := Prog.bind_eq_ok rest
    cases rest
    have ends : (onSched (Scheduler.add (Tcb.newUser s.threadIdCounter s.processIdCounter))
        { s with
          processes
          processIdCounter := s.processIdCounter + 1
          threadIdCounter := s.threadIdCounter + 1 }).Ends s' :=
      Outcome.ends_of_ok added
    obtain ⟨sched, ran, rfl⟩ := onSched_ends ends
    exact ⟨rfl, processes, sched, inserted, ran, rfl⟩

theorem launch_kept {parentPid : Nat} {last : LaunchEnd} (sound : s.Sound)
    (ran : (launch parentPid last s).Ends s') : Kept quiet noted s s' := by
  cases last with
  | early e => exact kept_of_within (Prog.Within.throw e) sound ran
  | init e => exact kept_of_within (allocateProcess_stays parentPid (some e)) sound ran
  | memory e =>
    exact kept_of_within ((allocateProcess_stays _ _).bind fun _ => Prog.Within.throw e) sound ran
  | argv e =>
    exact kept_of_within ((allocateProcess_stays _ _).bind fun pid =>
      (newThread_stays none pid).bind fun _ => Prog.Within.throw e) sound ran
  | done =>
    rcases Prog.bind_ends ran with ⟨e, failed⟩ | ⟨pid, s₁, allocated, rest⟩
    · exact kept_of_within (allocateProcess_stays parentPid none) sound (Outcome.ends_of_err failed)
    · have first : Kept True True s s₁ :=
        kept_of_within (allocateProcess_stays parentPid none) sound (Outcome.ends_of_ok allocated)
      obtain ⟨rfl, processes, inserted, rfl⟩ := allocateProcess_ok allocated
      rcases Prog.bind_ends rest with ⟨e, bad⟩ | ⟨thread, s₂, made, rest⟩
      · cases bad
      have second : Kept True True s s₂ :=
        first.trans (kept_of_within (newThread_stays none _) first.sound (Outcome.ends_of_ok made))
      cases made
      have third := add_kept second.sound (Nat.pos_iff_ne_zero.mp sound.pos) (Nat.lt_succ_self _)
        (Prog.map_ends rest)
      have away : ¬ s.Gone s.processIdCounter := sound.fresh
      refine (second.trans (third.weaken (fun _ gone => away ?_) id)).weaken (fun _ => trivial)
        fun _ => trivial
      exact gone_of_insert inserted (by simp [Process.init, Process.newDummy]) gone

/-- A launch leaves the caller and its process as they are. -/
theorem launch_survived {parentPid pid : Nat} {last : LaunchEnd} (sound : s.Sound)
    (ok : launch parentPid last s = .ok pid s') (survived : last = .done → s.Survived) :
    s'.Survived := by
  obtain ⟨done, processes, sched, inserted, added, rfl⟩ := launch_ok ok
  obtain ⟨cur_eq, kept⟩ := Scheduler.add_frame added
  intro i t cur ht
  have cur₀ : s.sched.currentIdx = some i := cur_eq ▸ cur
  obtain ⟨pid, fate⟩ := sound.lively.current i cur₀
  obtain ⟨u, hu, _, _⟩ := Scheduler.fates_eq_some.mp fate
  have same := (kept i u hu).symm.trans ht
  cases same
  rcases survived done i t cur₀ hu with ⟨j, away, alive⟩ | reapable
  · left
    obtain ⟨v, hv, eq, live⟩ := Scheduler.fates_eq_some.mp alive
    exact ⟨j, away, Scheduler.fates_eq_some.mpr ⟨v, kept j v hv, eq, live⟩⟩
  · right
    intro p mem eq
    rcases List.mem_cons.mp ((Slots.insert?_perm inserted).mem_iff.mp mem) with rfl | old
    · -- the new process is not the caller's
      have lt := (sound.thread _ _ _ (Scheduler.fates_of_thread hu)).2
      have id_eq : s.processIdCounter = t.processId := eq
      omega
    · exact reapable p old eq

theorem currentProcessId_inv {α : Type} {f : Nat → OsM α}
    (ran : ((currentProcessId >>= f) s).Ends s') :
    s' = s ∨ ∃ t, s.sched.getCurrentThread = some t ∧ (f t.processId s).Ends s' := by
  simp only [Prog.bind_apply, currentProcessId] at ran
  cases cur : s.sched.getCurrentThread with
  | none =>
    simp only [cur] at ran
    cases ran
    exact Or.inl rfl
  | some t =>
    simp only [cur] at ran
    exact Or.inr ⟨t, rfl, ran⟩

theorem lookupProcess_inv {α : Type} {pid : Nat} {f : Process → OsM α}
    (ran : ((lookupProcess pid >>= f) s).Ends s') :
    s' = s ∨ ∃ p, s.findProcess pid = some p ∧ (f p s).Ends s' := by
  simp only [Prog.bind_apply, lookupProcess] at ran
  cases found : s.findProcess pid with
  | none =>
    simp only [found] at ran
    cases ran
    exact Or.inl rfl
  | some p =>
    simp only [found] at ran
    exact Or.inr ⟨p, rfl, ran⟩

theorem findProcess_mem {pid : Nat} {p : Process} (h : s.findProcess pid = some p) :
    p ∈ s.processes.occupants ∧ p.id = pid := by
  rw [findProcess, Slots.find?_eq] at h
  exact ⟨List.mem_of_find?_eq_some h, by simpa using List.find?_some h⟩

theorem spawn_kept {last : LaunchEnd} (sound : s.Sound) (ran : (spawn last s).Ends s') :
    Kept quiet noted s s' := by
  rcases currentProcessId_inv ran with rfl | ⟨t, _, rest⟩
  · exact .refl sound
  rcases lookupProcess_inv rest with rfl | ⟨p, _, rest⟩
  · exact .refl sound
  exact launch_kept sound rest

theorem spawn_survived {pid : Nat} {last : LaunchEnd} (sound : s.Sound)
    (ok : spawn last s = .ok pid s') (survived : last = .done → s.Survived) : s'.Survived := by
  obtain ⟨caller, s₁, cur, after⟩ := Prog.bind_eq_ok ok
  have same : s₁ = s := by
    unfold currentProcessId at cur
    split at cur <;> cases cur
    rfl
  obtain ⟨p, s₂, found, launched⟩ := Prog.bind_eq_ok after
  have same' : s₂ = s₁ := by
    unfold lookupProcess at found
    split at found <;> cases found
    rfl
  subst same' same
  exact launch_survived sound launched survived

/-- The caller is replaced by the program it has launched. -/
theorem replace_kept {m : OsM Nat} (first : ∀ {s'}, (m s).Ends s' → Kept True noted s s')
    (survived : ∀ {pid s'}, m s = .ok pid s' → noted → s'.Survived)
    (ran : ((m >>= fun _ => onSched Scheduler.die) s).Ends s') : Kept True noted s s' := by
  rcases Prog.bind_ends ran with ⟨e, failed⟩ | ⟨pid, s₁, ok, rest⟩
  · exact first (Outcome.ends_of_err failed)
  · have kept := first (Outcome.ends_of_ok ok)
    exact kept.trans ((die_kept kept.sound rest).weaken id (survived ok))

theorem exec_kept {last : LaunchEnd} (sound : s.Sound) (ran : (exec last s).Ends s') :
    Kept True (last = .done → s.Survived) s s' :=
  replace_kept (launch_kept sound) (launch_survived sound) ran

theorem execve_kept {last : LaunchEnd} (sound : s.Sound) (ran : (execve last s).Ends s') :
    Kept True (last = .done → s.Survived) s s' :=
  replace_kept (spawn_kept sound) (spawn_survived sound) ran

theorem threadCreate_kept {pid : Nat} {e : Option Status} (sound : s.Sound) (pos : pid ≠ 0)
    (ran : (threadCreate pid e s).Ends s') : Kept (¬ s.Gone pid) True s s' := by
  rcases lookupProcess_inv ran with rfl | ⟨p, found, rest⟩
  · exact .refl sound
  obtain ⟨mem, rfl⟩ := findProcess_mem found
  rcases Prog.bind_ends rest with ⟨e', failed⟩ | ⟨thread, s₁, made, rest⟩
  · exact kept_of_within (newThread_stays e p.id) sound (Outcome.ends_of_err failed)
  · have first : Kept (¬ s.Gone p.id) True s s₁ :=
      kept_of_within (newThread_stays e p.id) sound (Outcome.ends_of_ok made)
    cases e with
    | some e => cases made
    | none =>
      cases made
      exact first.trans (add_kept first.sound pos (sound.process_lt p mem) rest)

/-- The caller is the only thread of its process that is alive. -/
def LastThread (s : Os) : Prop := ∀ i t, s.sched.currentIdx = some i → s.sched.threads i = some t →
  ∀ j dead, j ≠ i → s.sched.fates j = some (t.processId, dead) → dead = true

theorem toZombie_reapable (p : Process) (code : Int) : (p.toZombie code).reapable = true := rfl

theorem ends_onSched {α : Type} {m : SchedM α} {sched : Scheduler} (ran : (m s.sched).Ends sched) :
    (onSched m s).Ends { s with tasks := { s.tasks with sched } } := by
  unfold onSched onTasks Tasks.onSched
  exact Prog.ends_zoom (Prog.ends_zoom ran)

/-- The process that a mark was put on can be reaped. -/
theorem marked_reapable {processes : Slots Process maxProcesses} {pid : Nat} {code : Int}
    (hp : processes = s.processes.modify (·.id == pid) (·.toZombie code)) (pos : pid ≠ 0)
    (sound : ({ s with processes } : Os).Sound) {p : Process} (mem : p ∈ processes.occupants)
    (eq : p.id = pid) : p.reapable = true := by
  rcases s.processes.modify_occupants (·.id == pid) (·.toZombie code) with
    ⟨out, same⟩ | ⟨l, a, r, _, _, ha, eq'⟩
  · rw [hp, same] at mem
    exact absurd (by simpa using eq) (out p mem)
  · rw [← hp] at eq'
    have id_a : a.id = pid := by simpa using ha
    have mem_a : a.toZombie code ∈ processes.occupants := by
      rw [eq']
      simp
    have one := sound.unique mem mem_a (eq.trans id_a.symm) (eq ▸ pos)
    rw [one]
    exact toZombie_reapable a code

/-- The process is marked before the thread is killed; for the threads the order does not matter. -/
theorem exit_kept {code : Int} (sound : s.Sound) (ran : (exit code s).Ends s') :
    Kept s.LastThread True s s' := by
  simp only [exit, Prog.bind_apply, Prog.get_apply] at ran
  cases cur : s.sched.getCurrentThread with
  | none =>
    simp only [cur] at ran
    have ran : (onSched Scheduler.die s).Ends s' := ran
    refine (die_kept sound ran).weaken (fun _ => trivial) fun _ i t hc ht => ?_
    have some_thread : s.sched.getCurrentThread = some t := by simp [Scheduler.getCurrentThread, hc, ht]
    rw [cur] at some_thread
    cases some_thread
  | some t =>
    obtain ⟨i, hc, ht⟩ := Option.bind_eq_some_iff.mp cur
    simp only [cur] at ran
    set processes := s.processes.modify (·.id == t.processId) (·.toZombie code) with hp
    have ran : (onSched Scheduler.die { s with processes }).Ends s' := ran
    have marked : Kept False True s { s with processes } :=
      update_kept sound (fun _ => rfl) (fun no => no.elim) fun _ p _ => toZombie_reapable p code
    have noted := die_kept marked.sound ran
    obtain ⟨sched, ends, rfl⟩ := onSched_ends ran
    have killed := die_kept sound (ends_onSched ends)
    refine ⟨noted.sound, fun lastThread rest => ?_, fun _ acc => ?_⟩
    · -- first the death of the thread, then the mark on the process
      have dead : ({ s with tasks := { s.tasks with sched } } : Os).AllDead t.processId := by
        obtain ⟨_, ⟨gone, _⟩ | ⟨i', t', hc', ht', fates⟩⟩ := Scheduler.die_fates sound.lively ends
        · rw [cur] at gone
          cases gone
        cases hc.symm.trans hc'
        cases ht.symm.trans ht'
        intro j dead fate
        have fate : sched.fates j = some (t.processId, dead) := fate
        rw [fates] at fate
        rcases update_fate_inv fate with ⟨_, _, rfl⟩ | ⟨away, fate⟩
        · rfl
        · exact lastThread i t hc ht j dead away fate
      have late : Kept True False ({ s with tasks := { s.tasks with sched } } : Os)
          { s with tasks := { s.tasks with sched }, processes } :=
        update_kept killed.sound (fun _ => rfl) (fun _ _ _ _ _ => Or.inr dead) fun no => no.elim
      exact late.rest trivial (killed.rest trivial rest)
    · refine noted.accounted (fun j u hj hu => Or.inr fun p mem eq => ?_) (marked.accounted trivial acc)
      have hj : s.sched.currentIdx = some j := hj
      have hu : s.sched.threads j = some u := hu
      cases hc.symm.trans hj
      cases ht.symm.trans hu
      have pos := (sound.thread _ _ _ (Scheduler.fates_of_thread ht)).1
      exact marked_reapable hp pos marked.sound mem eq

theorem procMgmtExit_kept {pid : Nat} {code : Int} (sound : s.Sound)
    (ran : (procMgmtExit pid code s).Ends s') :
    Kept ((s.findProcess pid).isSome → s.AllDead pid) True s s' := by
  rcases lookupProcess_inv ran with rfl | ⟨p, found, rest⟩
  · exact .refl sound
  cases rest
  exact update_kept sound (fun _ => rfl) (fun dead _ _ _ _ => Or.inr (dead (by simp [found])))
    fun _ p _ => toZombie_reapable p code

theorem wait4_stays (pid : Int) : Prog.Within Stays (wait4 pid) := by
  refine within_currentProcessId.bind fun caller => ?_
  split_ifs
  · exact Prog.Within.throw _
  refine (reap_stays caller pid).bind fun found => ?_
  split
  · exact Prog.Within.pure _
  · refine Prog.Within.get.bind fun s => ?_
    split_ifs <;> exact Prog.Within.throw _

theorem procMgmtWait_stays (pid : Int) : Prog.Within Stays (procMgmtWait pid) := by
  refine within_currentProcessId.bind fun caller => ?_
  refine (reap_stays caller pid).bind fun found => ?_
  split
  · exact Prog.Within.pure _
  · exact Prog.Within.throw _

theorem sigactionSet_stays (sig handler : Nat) : Prog.Within Stays (sigactionSet sig handler) :=
  within_sigactionSet fun _ _ _ => updateProcess_stays (by intro; rfl) (by intro; rfl) (by intro; rfl)

theorem signalSend_stays (pid sig : Nat) : Prog.Within Stays (signalSend pid sig) :=
  within_signalSend (updateProcess_stays (by intro; rfl) (by intro; rfl) (by intro; rfl))

end Os

/-! ## Pending signals -/

namespace Process

theorem dispatchPending_frame (p : Process) : p.dispatchPending.2.id = p.id ∧
    (p.dispatchPending.2.reapable = true ∨
      p.dispatchPending.2.exitStatus = p.exitStatus ∧ p.dispatchPending.2.state = p.state) := by
  rcases p.dispatchPending_cases with ⟨-, eq⟩ | ⟨-, eq⟩ <;> rw [eq]
  · exact ⟨rfl, .inr ⟨rfl, rfl⟩⟩
  · exact ⟨rfl, .inl rfl⟩

theorem dispatchPending_calm {p : Process} (h : p.Calm) : p.dispatchPending.2.state = p.state := by
  rw [h.dispatchPending_clears]

end Process

namespace Os

variable {quiet noted : Prop} {s s₁ s' : Os}

/-- The process of the running thread has no signal that would end it. -/
def NoFatalSignal (s : Os) : Prop := ∀ t, s.sched.getCurrentThread = some t →
  ∀ p ∈ s.processes.occupants, p.id = t.processId → p.Calm

theorem pause_kept (sound : s.Sound) (ran : (pause s).Ends s') : Kept s.NoFatalSignal True s s' := by
  rcases currentProcessId_inv ran with rfl | ⟨t, cur, rest⟩
  · exact .refl sound
  rcases lookupProcess_inv rest with rfl | ⟨p, found, rest⟩
  · exact .refl sound
  split_ifs at rest with zombie
  · cases rest
    exact .refl sound
  rcases Prog.bind_ends rest with ⟨e, bad⟩ | ⟨u, s₁, ok, rest⟩
  · cases bad
  cases ok
  have updated : Kept s.NoFatalSignal True s { s with
      processes := s.processes.modify (·.id == t.processId) fun p => p.dispatchPending.2 } := by
    refine update_kept sound (fun p => p.dispatchPending_frame.1) (fun calm q mem eq dead => ?_)
      fun _ q reapable => ?_
    · rw [Process.dispatchPending_calm (calm t cur q mem eq)] at dead
      exact Or.inl dead
    · rcases q.dispatchPending_frame.2 with done | ⟨code, state⟩
      · exact done
      · unfold Process.reapable at *
        rw [code, state]
        exact reapable
  split_ifs at rest
  · cases rest
    exact updated
  · exact updated.trans (kept_of_within
      (onTasks_stays (Tasks.onSched_sameFates Scheduler.schedule_sameFates)) updated.sound rest)

/-- A call that only concerns threads. -/
theorem task_kept {op : TaskOp} (sound : s.Sound) (enabled : (ProcOp.task op).Enabled s)
    (ran : (onTasks op.exec s).Ends s') :
    Kept (∀ i t, op.revives s.tasks = some i → s.sched.threads i = some t → t.state = .dead →
      ¬ s.Gone t.processId) True s s' := by
  have kind : op.Plain = true ∨ (∃ p packet, op = .portQueue p packet) ∨ ∃ tid, op = .threadStart tid := by
    cases op with
    | add | die => exact enabled.elim
    | portQueue p packet => exact Or.inr (Or.inl ⟨p, packet, rfl⟩)
    | threadStart tid => exact Or.inr (Or.inr ⟨tid, rfl⟩)
    | _ => exact Or.inl rfl
  unfold onTasks at ran
  obtain ⟨tasks, ends, rfl⟩ := Prog.zoom_ends ran
  obtain ⟨lively, fates | ⟨i, t, revived, ht, fates⟩⟩ := TaskOp.revives_fates kind sound.lively ends
  · exact (stays_of_fates (n := s.threadIdCounter) fun _ => ⟨lively, fates⟩).kept sound
  · have ht : s.sched.threads i = some t := ht
    have here := Scheduler.fates_of_thread ht
    obtain ⟨pos, lt⟩ := sound.thread _ _ _ here
    have old : ∀ pid dead, s.sched.fates i = some (pid, dead) → pid = t.processId := by
      intro pid dead fate
      rw [here] at fate
      cases fate
      rfl
    refine (kept_of_alive sound lively pos lt old fates).weaken (fun quiet gone => ?_) id
    refine ⟨i, ?_⟩
    have alive : t.state ≠ .dead := fun dead => quiet i t revived ht dead gone
    simp [here, alive]

end Os

/-! ## From boot on -/

namespace ProcOp

/-- A process that becomes a zombie has no thread left but the one that makes the call, and none of
its threads, nor a new one, is made ready afterwards. -/
def Quiet (s : Os) : ProcOp → Prop
  | .task op => ∀ i t, op.revives s.tasks = some i → s.sched.threads i = some t → t.state = .dead →
      ¬ s.Gone t.processId
  | .threadCreate pid _ => ¬ s.Gone pid
  | .exit _ => s.LastThread
  | .procMgmtExit pid _ => (s.findProcess pid).isSome → s.AllDead pid
  | .pause => s.NoFatalSignal
  | _ => True

/-- The last thread of a process does not die in `sys_exec`, `sys_execve` or a fault, unless the
process can be reaped already. -/
def Noted (s : Os) : ProcOp → Prop
  | .exec last => last = .done → s.Survived
  | .execve last => last = .done → s.Survived
  | .fault => s.Survived
  | _ => True

open Os

/-- One step. -/
theorem kept {op : ProcOp} {s s' : Os} (step : system.Steps op s s') (sound : s.Sound) :
    Kept (op.Quiet s) (op.Noted s) s s' := by
  have ran := step.ran
  cases op with
  | task op => exact task_kept sound step.enabled ran
  | launch last => exact launch_kept sound (Prog.map_ends ran)
  | spawn last => exact spawn_kept sound (Prog.map_ends ran)
  | exec last => exact exec_kept sound ran
  | execve last => exact execve_kept sound ran
  | processCreate e => exact kept_of_within (allocateProcess_stays 0 e) sound (Prog.map_ends ran)
  | procMgmtCreate parentPid e =>
    exact kept_of_within (allocateProcess_stays parentPid e) sound (Prog.map_ends ran)
  | threadCreate pid e => exact threadCreate_kept sound step.enabled ran
  | exit code => exact exit_kept sound ran
  | fault => exact (die_kept sound ran).weaken (fun _ => trivial) id
  | procMgmtExit pid code => exact procMgmtExit_kept sound ran
  | wait4 pid => exact kept_of_within (wait4_stays pid) sound (Prog.map_ends ran)
  | procMgmtWait pid => exact kept_of_within (procMgmtWait_stays pid) sound (Prog.map_ends ran)
  | sigaction sig handler =>
    exact kept_of_within (sigactionSet_stays sig handler) sound (Prog.map_ends ran)
  | raise sig => exact kept_of_within (within_raise (signalSend_stays · sig)) sound ran
  | kill pid sig => exact kept_of_within (within_kill (signalSend_stays · sig) pid) sound ran
  | pause => exact pause_kept sound ran

end ProcOp

namespace Os

variable {s s' : Os}

/-- No process and no thread yet. -/
def boot : Os where
  tasks := Tasks.boot
  processes := Slots.empty
  processIdCounter := 1
  threadIdCounter := 1
  reaped := []

theorem boot_sound : boot.Sound where
  lively := ⟨fun _ cur => (by cases cur), fun _ => rfl⟩
  pos := Nat.one_pos
  process_lt p mem := by
    rw [boot, Slots.occupants_empty] at mem
    cases mem
  reaped_lt _ mem := by cases mem
  thread _ _ _ fate := by cases fate
  uniq := by simp [boot]

theorem boot_atRest : boot.AtRest := fun _ _ _ _ fate => by cases fate

theorem boot_accounted : boot.Accounted := fun p mem => by
  rw [boot, Slots.occupants_empty] at mem
  cases mem

theorem reap_inv {caller : Nat} {pid : Int} {p : Process} (h : reap caller pid s = .ok (some p) s') :
    p ∈ s.processes.occupants ∧ p.isChild caller pid = true ∧ p.reapable = true ∧
      s.processes.occupants.Perm (p :: s'.processes.occupants) := by
  unfold reap at h
  cases taken : s.processes.take? fun p => p.isChild caller pid && p.reapable with
  | none =>
    simp only [taken] at h
    cases h
  | some r =>
    obtain ⟨q, processes⟩ := r
    simp only [taken] at h
    cases h
    have perm := Slots.take?_perm taken
    have fits := List.find?_some ((Slots.find?_eq _ _).symm.trans (Slots.take?_find taken))
    simp only [Bool.and_eq_true] at fits
    exact ⟨perm.mem_iff.mpr List.mem_cons_self, fits.1, fits.2, perm⟩

/-- The parent of a zombie gets it by its id, and its slot with it. -/
theorem wait4_reaps (sound : s.Sound) {p : Process} (mem : p ∈ s.processes.occupants)
    (pos : p.id ≠ 0) (reapable : p.reapable = true) {t : Tcb} (cur : s.sched.getCurrentThread = some t)
    (parent : t.processId = p.parentPid) :
    ∃ s', wait4 p.id s = .ok p.id s' ∧ p ∉ s'.processes.occupants := by
  have child : (p.isChild t.processId p.id && p.reapable) = true := by
    simp [Process.isChild, parent, reapable]
  have some_child : s.processes.take? (fun q => q.isChild t.processId p.id && q.reapable) ≠ none := by
    rw [Ne, Slots.take?_eq_none, Slots.find?_eq, List.find?_eq_none]
    exact fun none_ => none_ p mem child
  obtain ⟨⟨q, processes⟩, taken⟩ := Option.ne_none_iff_exists'.mp some_child
  have ok : reap t.processId p.id s =
      .ok (some q) { s with processes, reaped := s.reaped ++ [q.id] } := by simp [reap, taken]
  obtain ⟨mem_q, child_q, _, perm⟩ := reap_inv ok
  have same : q = p := by
    refine sound.unique mem_q mem ?_ ?_
    · simp only [Process.isChild, Bool.and_eq_true, Bool.or_eq_true, decide_eq_true_eq,
        beq_iff_eq] at child_q
      omega
    · intro zero
      simp only [Process.isChild, Bool.and_eq_true, Bool.or_eq_true, decide_eq_true_eq,
        beq_iff_eq] at child_q
      omega
  subst same
  refine ⟨{ s with processes, reaped := s.reaped ++ [q.id] }, ?_, fun left => ?_⟩
  · have positive : ¬ ((q.id : Int) < -1) := by omega
    simp [wait4, Prog.bind_apply, currentProcessId, cur, positive, ok]
  · -- a second process with the id would break uniqueness
    have ids := filter_ids_nodup perm.symm sound.uniq
    rw [List.map_cons, List.filter_cons, if_pos (by simpa using pos)] at ids
    exact (List.nodup_cons.mp ids).1 (List.mem_filter.mpr ⟨List.mem_map_of_mem left, by simpa using pos⟩)

end Os

open Os in
/-- In a run in which a process becomes a zombie only when the caller is its last living thread (or
when it has none), and no thread of a zombie or reaped process is created or made ready, the threads
of such a process are dead for good: none is ever made current, and a process that is reaped has no
thread that could still use its page tables. -/
theorem zombies_stay_at_rest (s : Os) (run : ProcOp.system.Run ProcOp.Quiet Os.boot s) :
    s.AtRest ∧ (∀ t, s.sched.getCurrentThread = some t → ¬ s.Gone t.processId) ∧
      ∀ caller pid p s', reap caller pid s = .ok (some p) s' → s.AllDead p.id := by
  obtain ⟨sound, rest⟩ := run.invariant (I := fun s => s.Sound ∧ s.AtRest) ⟨boot_sound, boot_atRest⟩
    fun op s s' inv quiet step =>
      have kept := ProcOp.kept step inv.1
      ⟨kept.sound, kept.rest quiet inv.2⟩
  refine ⟨rest, fun t cur gone => ?_, fun caller pid p s' ok => ?_⟩
  · obtain ⟨i, hc, ht⟩ := Option.bind_eq_some_iff.mp cur
    obtain ⟨pid, fate⟩ := sound.lively.current i hc
    have here := (Scheduler.fates_of_thread ht).symm.trans fate
    simp only [Option.some.injEq, Prod.mk.injEq] at here
    have dead := rest pid (here.1 ▸ gone) i false fate
    cases dead
  · obtain ⟨mem, _, reapable, _⟩ := reap_inv ok
    refine rest p.id (Or.inr ⟨p, mem, rfl, ?_⟩)
    simp only [Process.reapable, Bool.and_eq_true, beq_iff_eq] at reapable
    exact reapable.2

/-- A process spawns another one, which runs and exits. -/
def Os.round : List ProcOp :=
  [.launch .done, .task .run, .spawn .done, .task .tick, .exit 0]

theorem Os.round_follows : ProcOp.system.Follows ProcOp.Quiet Os.boot Os.round := by
  have others : ∀ j : Fin maxThreads, j ≠ ⟨1, by decide⟩ → ∀ dead,
      (ProcOp.system.after Os.boot (Os.round.take 4)).sched.fates j = some (2, dead) → dead = true := by
    decide
  have here : (ProcOp.system.after Os.boot (Os.round.take 4)).sched.currentIdx =
      some ⟨1, by decide⟩ := by decide
  have pid : ((ProcOp.system.after Os.boot (Os.round.take 4)).sched.threads ⟨1, by decide⟩).map (·.processId) =
      some 2 := by decide
  refine ⟨trivial, trivial, by decide, ?_, rfl, by decide, trivial, trivial, by decide, ?_, trivial,
    by decide, ?_, trivial, by decide, trivial⟩
  · exact fun i t none_ => by cases none_
  · exact fun i t none_ => by cases none_
  · intro i t hc ht j dead away fate
    cases here.symm.trans hc
    have id_eq : t.processId = 2 := by
      have some_pid := congrArg (Option.map (·.processId)) ht
      exact Option.some.inj (some_pid.symm.trans pid)
    rw [id_eq] at fate
    exact others j away dead fate

theorem zombies_stay_at_rest_round :
    (ProcOp.system.after Os.boot (Os.round ++ [.wait4 (-1)])).reaped = [2] ∧
      (ProcOp.system.after Os.boot (Os.round ++ [.wait4 (-1)])).AtRest := by
  have run : ProcOp.system.Run ProcOp.Quiet Os.boot
      (ProcOp.system.after (ProcOp.system.after Os.boot Os.round) [.wait4 (-1)]) :=
    (Stepper.Run.start.follow Os.round_follows).follow ⟨trivial, trivial, by decide, trivial⟩
  exact ⟨by decide, (zombies_stay_at_rest _ run).1⟩

/-- `PROC_MGMT_EXIT` ends a process whose thread is ready; the parent reaps it, and the thread is
made current. -/
theorem reaped_process_runs : ∃ s, ProcOp.system.Run (fun _ _ => True) Os.boot s ∧ 2 ∈ s.reaped ∧
    ∃ t, s.sched.getCurrentThread = some t ∧ t.processId = 2 := by
  refine ⟨ProcOp.system.after Os.boot [.launch .done, .task .run, .spawn .done, .procMgmtExit 2 0,
    .procMgmtWait 2, .task .tick], Stepper.Run.start.follow ?_, by decide, ?_⟩
  · exact ⟨trivial, trivial, by decide, trivial, rfl, by decide, trivial, trivial, by decide, trivial,
      trivial, by decide, trivial, trivial, by decide, trivial, trivial, by decide, trivial⟩
  · exact ⟨_, rfl, rfl⟩

/-- In a run in which `sys_exec`, `sys_execve` and faults never kill the last living thread of a
process that is not a zombie yet, every process whose threads are all dead is a zombie with an exit
status, and `wait4` returns it to its parent and frees its slot. -/
theorem dead_process_reapable (s : Os) (run : ProcOp.system.Run ProcOp.Noted Os.boot s) :
    ∀ p ∈ s.processes.occupants, (∃ i dead, s.sched.fates i = some (p.id, dead)) → s.AllDead p.id →
      (p.state = .zombie ∧ p.exitStatus.isSome) ∧
        ∀ t, s.sched.getCurrentThread = some t → t.processId = p.parentPid →
          ∃ s', Os.wait4 p.id s = .ok p.id s' ∧ p ∉ s'.processes.occupants := by
  obtain ⟨sound, accounted⟩ := run.invariant (I := fun s => s.Sound ∧ s.Accounted)
    ⟨Os.boot_sound, Os.boot_accounted⟩ fun op s s' inv noted step =>
      have kept := ProcOp.kept step inv.1
      ⟨kept.sound, kept.accounted noted inv.2⟩
  intro p mem some_thread all
  have reapable := accounted p mem some_thread all
  obtain ⟨i, dead, fate⟩ := some_thread
  refine ⟨?_, fun t cur parent => ?_⟩
  · simp only [Process.reapable, Bool.and_eq_true, beq_iff_eq] at reapable
    exact reapable.symm
  · exact Os.wait4_reaps sound mem (sound.thread i _ dead fate).1 reapable cur parent

theorem dead_process_reapable_round : ∃ p ∈ (ProcOp.system.after Os.boot Os.round).processes.occupants,
    p.state = .zombie ∧ p.exitStatus.isSome := by
  have listed : (ProcOp.system.after Os.boot Os.round).processes.occupants.any (·.id == 2) = true := by
    decide
  obtain ⟨p, mem, eq⟩ := List.any_eq_true.mp listed
  have id_eq : p.id = 2 := by simpa using eq
  have fates : (ProcOp.system.after Os.boot Os.round).sched.fates ⟨1, by decide⟩ = some (2, true) := by
    decide
  have all : (ProcOp.system.after Os.boot Os.round).AllDead 2 := by
    unfold Os.AllDead
    decide
  have run : ProcOp.system.Run ProcOp.Noted Os.boot (ProcOp.system.after Os.boot Os.round) :=
    Stepper.Run.start.follow ⟨trivial, trivial, by decide, trivial, rfl, by decide, trivial, trivial,
      by decide, trivial, trivial, by decide, trivial, trivial, by decide, trivial⟩
  exact ⟨p, mem, (dead_process_reapable _ run p mem ⟨_, _, id_eq ▸ fates⟩ (id_eq ▸ all)).1⟩

/-- The only thread of a process dies in a fault, and the process stays as it is. -/
theorem faulted_process_stays : ∃ s, ProcOp.system.Run (fun _ _ => True) Os.boot s ∧
    ∃ p ∈ s.processes.occupants, (∃ i dead, s.sched.fates i = some (p.id, dead)) ∧ s.AllDead p.id ∧
      p.state ≠ .zombie := by
  refine ⟨ProcOp.system.after Os.boot [.launch .done, .task .run, .spawn .done, .task .tick, .fault],
    Stepper.Run.start.follow ?_, ?_⟩
  · exact ⟨trivial, trivial, by decide, trivial, rfl, by decide, trivial, trivial, by decide, trivial,
      trivial, by decide, trivial, trivial, by decide, trivial⟩
  have listed : (ProcOp.system.after Os.boot [.launch .done, .task .run, .spawn .done, .task .tick,
      .fault]).processes.occupants.any (fun p => p.id == 2 && p.state == .initial) = true := by decide
  obtain ⟨p, mem, eq⟩ := List.any_eq_true.mp listed
  simp only [Bool.and_eq_true, beq_iff_eq] at eq
  refine ⟨p, mem, ⟨⟨1, by decide⟩, true, ?_⟩, ?_, ?_⟩
  · rw [eq.1]
    decide
  · rw [eq.1]
    unfold Os.AllDead
    decide
  · simp [eq.2]

end CapsuleOS
