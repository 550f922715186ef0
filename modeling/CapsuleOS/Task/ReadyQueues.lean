import CapsuleOS.Task.Scheduler

/-!
# Ready queues

`Orderly` relates the queues to the thread table: an entry is a ready thread in the queue of its
priority, listed once, and not the running one. `Complete` is the converse, that no ready thread is
missing. What one call of `schedule` can do under `Orderly` is said once, by `Scheduled`; how the
calls of the other modules keep the two properties follows from a few primitive updates.
-/
namespace CapsuleOS

open Lib

namespace Scheduler

variable {s s' : Scheduler}

@[simp] theorem setThread_queues (s : Scheduler) (i : Fin maxThreads) (t : Option Tcb) :
    (s.setThread i t).queues = s.queues := rfl

@[simp] theorem setThread_currentIdx (s : Scheduler) (i : Fin maxThreads) (t : Option Tcb) :
    (s.setThread i t).currentIdx = s.currentIdx := rfl

@[simp] theorem setQueue_threads (s : Scheduler) (p : Priority) (q : ThreadQueue) :
    (s.setQueue p q).threads = s.threads := rfl

@[simp] theorem setQueue_currentIdx (s : Scheduler) (p : Priority) (q : ThreadQueue) :
    (s.setQueue p q).currentIdx = s.currentIdx := rfl

@[simp] theorem modifyAt_queues (s : Scheduler) (i : Fin maxThreads) (f : Tcb → Tcb) :
    (s.modifyAt i f).queues = s.queues := rfl

@[simp] theorem modifyAt_currentIdx (s : Scheduler) (i : Fin maxThreads) (f : Tcb → Tcb) :
    (s.modifyAt i f).currentIdx = s.currentIdx := rfl
theorem setQueue_queues (s : Scheduler) (p p' : Priority) (q : ThreadQueue) :
    (s.setQueue p q).queues p' = if p' = p then q else s.queues p' := by
  simp [setQueue, Function.update_apply]

theorem setThread_threads (s : Scheduler) (i j : Fin maxThreads) (t : Option Tcb) :
    (s.setThread i t).threads j = if j = i then t else s.threads j := by
  simp [setThread, Function.update_apply]

theorem modifyAt_threads (s : Scheduler) (i j : Fin maxThreads) (f : Tcb → Tcb) :
    (s.modifyAt i f).threads j = if j = i then (s.threads i).map f else s.threads j := by
  rw [modifyAt, setThread_threads]

/-- The thread in a slot after an update of one slot. -/
theorem modifyAt_inv {i j : Fin maxThreads} {f : Tcb → Tcb} {t : Tcb}
    (h : (s.modifyAt i f).threads j = some t) :
    (j = i ∧ ∃ u, s.threads i = some u ∧ t = f u) ∨ (j ≠ i ∧ s.threads j = some t) := by
  rw [modifyAt_threads] at h
  split_ifs at h with eq
  · obtain ⟨u, hu, rfl⟩ := Option.map_eq_some_iff.mp h
    exact Or.inl ⟨eq, u, hu, rfl⟩
  · exact Or.inr ⟨eq, h⟩

/-! ## Queues against the thread table -/

/-- Every entry is a ready thread in the queue of its priority, listed once. -/
structure QueuesOk (s : Scheduler) : Prop where
  ready : ∀ p, ∀ i ∈ (s.queues p).items, ∃ t, s.threads i = some t ∧ t.state = .ready ∧ t.priority = p
  nodup : ∀ p, (s.queues p).items.Nodup

/-- A thread that is not in a queue finds room in it. -/
theorem QueuesOk.room (h : s.QueuesOk) {p : Priority} {i : Fin maxThreads}
    (out : i ∉ (s.queues p).items) : (s.queues p).items.length < maxThreads := by
  have all : (i :: (s.queues p).items).Nodup := List.nodup_cons.mpr ⟨out, h.nodup p⟩
  simpa using all.length_le_card

/-- A thread whose state is not ready is in no queue. -/
theorem QueuesOk.not_mem (h : s.QueuesOk) {i : Fin maxThreads} {t : Tcb} (ht : s.threads i = some t)
    (busy : t.state ≠ .ready) (p : Priority) : i ∉ (s.queues p).items := by
  intro mem
  obtain ⟨u, hu, state, _⟩ := h.ready p i mem
  rw [ht] at hu
  cases hu
  exact busy state

/-- Changing a thread keeps its entries if it stays ready with its priority, or has none. -/
theorem QueuesOk.modifyAt (h : s.QueuesOk) (i : Fin maxThreads) (f : Tcb → Tcb)
    (keep : ∀ t, s.threads i = some t → (∀ p, i ∉ (s.queues p).items) ∨
      ((f t).state = .ready ∧ (f t).priority = t.priority)) : (s.modifyAt i f).QueuesOk where
  ready p j mem := by
    obtain ⟨t, ht, state, prio⟩ := h.ready p j mem
    rw [modifyAt_threads]
    by_cases eq : j = i
    · subst eq
      rw [if_pos rfl, ht]
      rcases keep t ht with out | ⟨state', prio'⟩
      · exact absurd mem (out p)
      · exact ⟨f t, rfl, state', prio'.trans prio⟩
    · exact ⟨t, by rw [if_neg eq, ht], state, prio⟩
  nodup := h.nodup

/-- The state after a successful requeue. -/
def pushed (s : Scheduler) (t : Tcb) (i : Fin maxThreads) : Scheduler :=
  s.setQueue t.priority ((s.queues t.priority).push i).2

@[simp] theorem requeueCurrent_threads (s : Scheduler) (i : Fin maxThreads) :
    (s.requeueCurrent i).threads = s.threads := by
  unfold requeueCurrent
  split
  · rfl
  · split <;> rfl

theorem requeueCurrent_eq (h : s.QueuesOk) {i : Fin maxThreads} {t : Tcb}
    (ht : s.threads i = some t) (out : i ∉ (s.queues t.priority).items) :
    s.requeueCurrent i = s.pushed t i := by
  have room := (ThreadQueue.push_fst (s.queues t.priority) i).mpr (h.room out)
  simp only [requeueCurrent, pushed, ht]
  generalize (s.queues t.priority).push i = r at room
  obtain ⟨ok, q⟩ := r
  cases room
  rfl

theorem pushed_items (h : s.QueuesOk) {i : Fin maxThreads} {t : Tcb}
    (out : i ∉ (s.queues t.priority).items) (p : Priority) :
    ((s.pushed t i).queues p).items =
      if p = t.priority then (s.queues p).items ++ [i] else (s.queues p).items := by
  rw [pushed, setQueue_queues]
  split_ifs with eq
  · rw [ThreadQueue.push_items, if_pos (h.room out), eq]
  · rfl

theorem QueuesOk.pushed (h : s.QueuesOk) {i : Fin maxThreads} {t : Tcb} (ht : s.threads i = some t)
    (state : t.state = .ready) (out : i ∉ (s.queues t.priority).items) : (s.pushed t i).QueuesOk where
  ready p j mem := by
    rw [pushed_items h out] at mem
    split_ifs at mem with eq
    · rcases List.mem_append.mp mem with old | new
      · exact h.ready p j old
      · cases List.mem_singleton.mp new
        exact ⟨t, ht, state, eq.symm⟩
    · exact h.ready p j mem
  nodup p := by
    rw [pushed_items h out]
    split_ifs with eq
    · subst eq
      exact List.nodup_append.mpr ⟨h.nodup _, List.nodup_singleton i, by
        rintro a ha b hb rfl
        cases List.mem_singleton.mp hb
        exact out ha⟩
    · exact h.nodup p

/-! ## Selection -/

theorem popCandidate_eq_none : s.popCandidate = none ↔ ∀ p, (s.queues p).items = [] := by
  simp only [popCandidate, List.findSome?_eq_none_iff, Option.map_eq_none_iff,
    ThreadQueue.pop_eq_none]
  exact ⟨fun h p => h p p.mem_levels, fun h p _ => h p⟩

theorem popCandidate_eq_some {i : Fin maxThreads} (h : s.popCandidate = some (i, s')) :
    ∃ p q, (s.queues p).items = i :: q.items ∧ s' = s.setQueue p q := by
  obtain ⟨p, _, found⟩ := List.exists_of_findSome?_eq_some h
  obtain ⟨⟨j, q⟩, popped, eq⟩ := Option.map_eq_some_iff.mp found
  cases eq
  exact ⟨p, q, ThreadQueue.pop_eq_some popped, rfl⟩

/-- Under `QueuesOk` the first candidate is taken; the scan runs only when every queue is empty. -/
theorem popNext_cases (h : s.QueuesOk) :
    (∃ p i q, (s.queues p).items = i :: q.items ∧
      s.popNextFromAllQueues = (some i, s.setQueue p q)) ∨
    ((∀ p, (s.queues p).items = []) ∧ s.popNextFromAllQueues = (s.firstLive, s)) := by
  have first : s.popNextFromAllQueues = popLoop (15 + 1) s := rfl
  rw [first, popLoop]
  cases hc : s.popCandidate with
  | none => exact Or.inr ⟨popCandidate_eq_none.mp hc, rfl⟩
  | some r =>
    obtain ⟨i, s'⟩ := r
    obtain ⟨p, q, items, rfl⟩ := popCandidate_eq_some hc
    obtain ⟨t, ht, state, _⟩ := h.ready p i (items ▸ List.mem_cons_self)
    have alive : (s.setQueue p q).isDead i = false := by simp [isDead, ht, state]
    exact Or.inl ⟨p, i, q, items, by simp [alive]⟩

/-- Taking an entry out of a queue. -/
theorem QueuesOk.popped (h : s.QueuesOk) {p : Priority} {i : Fin maxThreads} {q : ThreadQueue}
    (items : (s.queues p).items = i :: q.items) :
    (s.setQueue p q).QueuesOk ∧ ∀ p', i ∉ ((s.setQueue p q).queues p').items := by
  have all := h.nodup p
  rw [items] at all
  have sub : ∀ p' j, j ∈ ((s.setQueue p q).queues p').items → j ∈ (s.queues p').items := by
    intro p' j mem
    rw [setQueue_queues] at mem
    split_ifs at mem with eq
    · rw [eq, items]
      exact List.mem_cons_of_mem _ mem
    · exact mem
  refine ⟨⟨fun p' j mem => h.ready p' j (sub p' j mem), fun p' => ?_⟩, fun p' mem => ?_⟩
  · rw [setQueue_queues]
    split_ifs
    · exact (List.nodup_cons.mp all).2
    · exact h.nodup p'
  · obtain ⟨t, ht, _, prio⟩ := h.ready p i (items ▸ List.mem_cons_self)
    obtain ⟨t', ht', _, prio'⟩ := h.ready p' i (sub p' i mem)
    rw [ht] at ht'
    cases ht'
    rw [setQueue_queues, if_pos (prio'.symm.trans prio)] at mem
    exact (List.nodup_cons.mp all).1 mem

/-! ## The running thread -/

/-- The queues agree with the thread table, and the running thread is the only one marked so. -/
structure Orderly (s : Scheduler) : Prop extends QueuesOk s where
  apart : ∀ p, ∀ i ∈ (s.queues p).items, s.currentIdx ≠ some i
  present : ∀ i, s.currentIdx = some i → ∃ t, s.threads i = some t
  sole : ∀ i t, s.threads i = some t → t.state = .running → s.currentIdx = some i
  idle : s.running = false → s.currentIdx = none

/-- The running thread can go on. -/
def Awake (s : Scheduler) : Prop :=
  ∀ i t, s.currentIdx = some i → s.threads i = some t → t.state = .running ∨ t.state = .ready

/-- Every ready thread that does not run is queued. -/
def Complete (s : Scheduler) : Prop :=
  ∀ i t, s.threads i = some t → t.state = .ready → s.currentIdx ≠ some i →
    i ∈ (s.queues t.priority).items

/-- What `retire` leaves: the previous thread is queued if it can go on, and nobody is running. -/
structure Retired (s s₁ : Scheduler) : Prop where
  queues : s₁.QueuesOk
  current_eq : s₁.currentIdx = s.currentIdx
  running_eq : s₁.running = s.running
  none_running : ∀ i t, s₁.threads i = some t → t.state ≠ .running
  present : ∀ i, s.threads i ≠ none → ∃ t, s₁.threads i = some t
  mono : ∀ p i, i ∈ (s.queues p).items → i ∈ (s₁.queues p).items
  requeued : s.Awake → ∀ i, s.currentIdx = some i → ∃ p, i ∈ (s₁.queues p).items
  alive : ∀ i u, s₁.threads i = some u → u.state ≠ .dead → ∃ t, s.threads i = some t ∧ t.state ≠ .dead
  complete : s.Complete → ∀ i t, s₁.threads i = some t → t.state = .ready →
    i ∈ (s₁.queues t.priority).items
  dropped_eq : s₁.dropped = s.dropped
  selections_eq : s₁.selections = s.selections

theorem expire_ready {t : Tcb} : t.expire.state = .ready ↔ t.state = .running ∨ t.state = .ready := by
  rw [Tcb.expire_state]
  split_ifs with running
  · simp [running]
  · simp [running]

theorem retire_retired (h : s.Orderly) {prev : Fin maxThreads} (cur : s.currentIdx = some prev) :
    Retired s (s.retire prev) := by
  obtain ⟨t, ht⟩ := h.present prev cur
  have out : ∀ p, prev ∉ (s.queues p).items := fun p mem => h.apart p prev mem cur
  set s₀ := s.modifyAt prev Tcb.expire with hs₀
  have ht₀ : s₀.threads prev = some t.expire := by rw [hs₀, modifyAt_threads, if_pos rfl, ht]; rfl
  have ok₀ : s₀.QueuesOk := h.toQueuesOk.modifyAt prev _ fun _ _ => Or.inl out
  have none_running : ∀ i u, s₀.threads i = some u → u.state ≠ .running := by
    intro i u hu run
    rcases modifyAt_inv hu with ⟨rfl, v, _, rfl⟩ | ⟨ne, old⟩
    · rw [Tcb.expire_state] at run
      split_ifs at run with was
      exact was run
    · have eq := h.sole i u old run
      rw [cur] at eq
      exact ne (Option.some.inj eq).symm
  have present : ∀ i, s.threads i ≠ none → ∃ u, s₀.threads i = some u := by
    intro i hi
    by_cases eq : i = prev
    · exact ⟨_, eq ▸ ht₀⟩
    · obtain ⟨u, hu⟩ := Option.ne_none_iff_exists'.mp hi
      exact ⟨u, by rw [hs₀, modifyAt_threads, if_neg eq, hu]⟩
  have alive : ∀ i u, s₀.threads i = some u → u.state ≠ .dead →
      ∃ v, s.threads i = some v ∧ v.state ≠ .dead := by
    intro i u hu live
    rcases modifyAt_inv hu with ⟨rfl, v, hv, rfl⟩ | ⟨_, old⟩
    · refine ⟨v, hv, fun dead => live ?_⟩
      simp [dead]
    · exact ⟨u, old, live⟩
  -- before the push, only the previous thread can be ready and out of the queues
  have queued : s.Complete → ∀ i u, s₀.threads i = some u → u.state = .ready →
      i = prev ∨ i ∈ (s₀.queues u.priority).items := by
    intro complete i u hu ready
    rcases modifyAt_inv hu with ⟨eq, _⟩ | ⟨ne, old⟩
    · exact Or.inl eq
    · refine Or.inr (complete i u old ready fun eq => ne ?_)
      rw [cur] at eq
      exact (Option.some.inj eq).symm
  have unfolded : s.retire prev = if t.expire.state = .ready then s₀.requeueCurrent prev else s₀ := by
    simp only [retire, ← hs₀, ht₀]
  by_cases ready : t.expire.state = .ready
  · rw [unfolded, if_pos ready, requeueCurrent_eq ok₀ ht₀ (out _)]
    refine ⟨ok₀.pushed ht₀ ready (out _), rfl, rfl, none_running, present, ?_, ?_, alive, ?_, rfl, rfl⟩
    · intro p i mem
      rw [pushed_items ok₀ (out _)]
      split_ifs
      · exact List.mem_append_left _ mem
      · exact mem
    · intro _ i hi
      rw [cur] at hi
      cases hi
      exact ⟨t.expire.priority, by rw [pushed_items ok₀ (out _)]; simp⟩
    · intro complete i u hu state
      rw [pushed_items ok₀ (out _)]
      rcases queued complete i u hu state with rfl | mem
      · have same : u = t.expire := by
          rw [pushed, setQueue_threads, ht₀] at hu
          exact (Option.some.inj hu).symm
        simp [same]
      · split_ifs
        · exact List.mem_append_left _ mem
        · exact mem
  · rw [unfolded, if_neg ready]
    refine ⟨ok₀, rfl, rfl, none_running, present, fun _ _ mem => mem, ?_, alive, ?_, rfl, rfl⟩
    · intro awake i hi
      rw [cur] at hi
      cases hi
      exact absurd (expire_ready.mpr (awake prev t cur ht)) ready
    · intro complete i u hu state
      rcases queued complete i u hu state with rfl | mem
      · rw [ht₀] at hu
        cases hu
        exact absurd state ready
      · exact mem

/-- What one call of `schedule` can do. -/
inductive Scheduled (s : Scheduler) : Outcome Scheduler Status Unit → Prop where
  | idle (none_current : s.currentIdx = none) : Scheduled s (.ok () s)
  | queued (prev : Fin maxThreads) (cur : s.currentIdx = some prev) (p : Priority)
      (i : Fin maxThreads) (q : ThreadQueue) (items : ((s.retire prev).queues p).items = i :: q.items) :
      Scheduled s (.ok () (((s.retire prev).setQueue p q).activate i))
  | scanned (prev : Fin maxThreads) (cur : s.currentIdx = some prev)
      (empty : ∀ p, ((s.retire prev).queues p).items = []) (i : Fin maxThreads)
      (live : (s.retire prev).firstLive = some i) : Scheduled s (.ok () ((s.retire prev).activate i))
  | halted (prev : Fin maxThreads) (cur : s.currentIdx = some prev)
      (empty : ∀ p, ((s.retire prev).queues p).items = []) (dead : (s.retire prev).firstLive = none) :
      Scheduled s (.fault (s.retire prev))

theorem firstLive_eq_none (h : s.firstLive = none) : s.allDead = true := by
  rw [firstLive, List.find?_eq_none] at h
  rw [allDead, List.all_eq_true]
  intro i mem
  have dead := h i mem
  cases ht : s.threads i with
  | none => simp [isDead, ht]
  | some t => simpa [isDead, ht] using dead

theorem schedule_scheduled (h : s.Orderly) : Scheduled s (schedule s) := by
  unfold schedule
  split_ifs with running
  · cases cur : s.currentIdx with
    | none => exact .idle cur
    | some prev =>
      have retired := retire_retired h cur
      obtain ⟨t, ht⟩ := h.present prev cur
      obtain ⟨u, hu⟩ := retired.present prev (by simp [ht])
      have kept : ∀ next, ¬ (prev ≠ next ∧ (s.retire prev).threads prev = none) := by simp [hu]
      simp only [selectNext]
      rcases popNext_cases retired.queues with ⟨p, i, q, items, pop⟩ | ⟨empty, pop⟩
      · rw [pop]
        simp only [kept, if_false]
        exact .queued prev cur p i q items
      · rw [pop]
        cases live : (s.retire prev).firstLive with
        | some i =>
          simp only [kept, if_false]
          exact .scanned prev cur empty i live
        | none =>
          simp only [firstLive_eq_none live, if_true]
          exact .halted prev cur empty live
  · exact .idle (h.idle (by simpa using running))

/-! ## One step -/

/-- A step keeps the order; it loses no wakeup and no queue entry. -/
structure Advances (s s' : Scheduler) : Prop where
  orderly : s'.Orderly
  awake : s'.Awake
  complete : s.Complete → s'.Complete
  dropped_eq : s'.dropped = s.dropped

/-- Making a thread current that is in no queue. -/
theorem activate_advances {s₁ : Scheduler} {i : Fin maxThreads} (ok : s₁.QueuesOk)
    (out : ∀ p, i ∉ (s₁.queues p).items) (there : ∃ t, s₁.threads i = some t)
    (none_running : ∀ j t, s₁.threads j = some t → t.state ≠ .running) (on : s₁.running = true)
    (complete : s.Complete → ∀ j t, s₁.threads j = some t → t.state = .ready → j ≠ i →
      j ∈ (s₁.queues t.priority).items) (dropped_eq : s₁.dropped = s.dropped) :
    Advances s (s₁.activate i) := by
  have ok' : (s₁.modifyAt i Tcb.activate).QueuesOk := ok.modifyAt i _ fun _ _ => Or.inl out
  refine ⟨⟨⟨ok'.ready, ok'.nodup⟩, ?_, ?_, ?_, ?_⟩, ?_, ?_, dropped_eq⟩
  · rintro p j mem eq
    cases eq
    exact out p mem
  · rintro j eq
    cases eq
    obtain ⟨t, ht⟩ := there
    exact ⟨t.activate, by simp [activate, modifyAt_threads, ht]⟩
  · intro j t ht run
    rcases modifyAt_inv (s := s₁) ht with ⟨rfl, _⟩ | ⟨_, old⟩
    · rfl
    · exact absurd run (none_running j t old)
  · intro off
    rw [show (s₁.activate i).running = s₁.running from rfl, on] at off
    cases off
  · rintro j t eq ht
    cases eq
    rcases modifyAt_inv (s := s₁) ht with ⟨_, u, _, rfl⟩ | ⟨ne, _⟩
    · exact Or.inl rfl
    · exact absurd rfl ne
  · intro full j t ht ready away
    rcases modifyAt_inv (s := s₁) ht with ⟨rfl, _⟩ | ⟨ne, old⟩
    · exact absurd rfl away
    · exact complete full j t old ready ne

theorem firstLive_eq_some {i : Fin maxThreads} (h : s.firstLive = some i) :
    ∃ t, s.threads i = some t ∧ t.state ≠ .dead := by
  have live := List.find?_some h
  cases ht : s.threads i with
  | none => simp [ht] at live
  | some t => exact ⟨t, rfl, by simpa [ht] using live⟩

theorem schedule_advances (h : s.Orderly) {u : Unit} (ok : schedule s = .ok u s') : Advances s s' := by
  have result := schedule_scheduled h
  rw [ok] at result
  have on : ∀ {i}, s.currentIdx = some i → s.running = true := by
    intro i cur
    by_contra off
    rw [h.idle (by simpa using off)] at cur
    cases cur
  cases result with
  | idle none_current =>
    exact ⟨h, fun i t cur _ => (by rw [none_current] at cur; cases cur), id, rfl⟩
  | queued prev cur p i q items =>
    have retired := retire_retired h cur
    obtain ⟨ok₂, out⟩ := retired.queues.popped items
    obtain ⟨t, ht, _, _⟩ := retired.queues.ready p i (items ▸ List.mem_cons_self)
    refine activate_advances ok₂ out ⟨t, ht⟩ retired.none_running (retired.running_eq.trans (on cur)) ?_
      retired.dropped_eq
    intro full j v hv ready ne
    have mem := retired.complete full j v hv ready
    rw [setQueue_queues]
    split_ifs with eq
    · rw [eq, items] at mem
      exact (List.mem_cons.mp mem).resolve_left ne
    · exact mem
  | scanned prev cur empty i live =>
    have retired := retire_retired h cur
    obtain ⟨t, ht, _⟩ := firstLive_eq_some live
    refine activate_advances retired.queues (fun p mem => ?_) ⟨t, ht⟩ retired.none_running
      (retired.running_eq.trans (on cur)) (fun full j v hv ready _ => retired.complete full j v hv ready)
      retired.dropped_eq
    rw [empty p] at mem
    cases mem

/-- Somebody is queued, or nobody is alive. -/
def Relieved (s : Scheduler) : Prop :=
  (∃ p, (s.queues p).items ≠ []) ∨ ∀ i t, s.threads i = some t → t.state = .dead

/-- Each selected thread could be run. -/
def RunsRunnable (s : Scheduler) : Prop := ∀ st ∈ s.selections, st = .ready ∨ st = .running

theorem RunsRunnable.activate (h : s.RunsRunnable) {i : Fin maxThreads} {t : Tcb}
    (ht : s.threads i = some t) (ready : t.state = .ready) : (s.activate i).RunsRunnable := by
  intro st mem
  simp only [Scheduler.activate, ht, Option.map_some, Option.toList_some, List.mem_append,
    List.mem_singleton] at mem
  rcases mem with old | rfl
  · exact h st old
  · exact Or.inl ready

theorem schedule_runsRunnable (h : s.Orderly) (past : s.RunsRunnable) (fine : s.Relieved ∨ s.Awake)
    {u : Unit} (ok : schedule s = .ok u s') : s'.RunsRunnable := by
  have result := schedule_scheduled h
  rw [ok] at result
  cases result with
  | idle _ => exact past
  | queued prev cur p i q items =>
    have retired := retire_retired h cur
    obtain ⟨t, ht, ready, _⟩ := retired.queues.ready p i (items ▸ List.mem_cons_self)
    have past' : ((s.retire prev).setQueue p q).RunsRunnable := by
      intro st mem
      exact past st (retired.selections_eq ▸ mem)
    exact past'.activate ht ready
  | scanned prev cur empty i live =>
    have retired := retire_retired h cur
    obtain ⟨t, ht, not_dead⟩ := firstLive_eq_some live
    exfalso
    rcases fine with (⟨p, some_item⟩ | dead) | awake
    · obtain ⟨j, mem⟩ := List.exists_mem_of_ne_nil _ some_item
      have mem' := retired.mono p j mem
      rw [empty p] at mem'
      cases mem'
    · obtain ⟨v, hv, alive⟩ := retired.alive i t ht not_dead
      exact alive (dead i v hv)
    · obtain ⟨p, mem⟩ := retired.requeued awake prev cur
      rw [empty p] at mem
      cases mem

/-! ## Updates by the other modules -/

/-- An update of a thread that runs, or that stays as it was, or that is made ready. -/
theorem Orderly.modifyAt (h : s.Orderly) {i : Fin maxThreads} {f : Tcb → Tcb}
    (prio : ∀ t, (f t).priority = t.priority)
    (state : ∀ t, s.threads i = some t →
      s.currentIdx = some i ∨ (f t).state = .ready ∨ (f t).state = t.state) :
    (s.modifyAt i f).Orderly where
  toQueuesOk := by
    refine h.toQueuesOk.modifyAt i f fun t ht => ?_
    by_cases queued : ∃ p, i ∈ (s.queues p).items
    · obtain ⟨p, mem⟩ := queued
      obtain ⟨u, hu, ready, _⟩ := h.ready p i mem
      rw [ht] at hu
      cases hu
      refine Or.inr ⟨?_, prio t⟩
      rcases state t ht with cur | now | same
      · exact absurd cur (h.apart p i mem)
      · exact now
      · exact same.trans ready
    · exact Or.inl fun p mem => queued ⟨p, mem⟩
  apart := h.apart
  present j cur := by
    obtain ⟨t, ht⟩ := h.present j cur
    rw [modifyAt_threads]
    split_ifs with eq
    · exact ⟨f t, by rw [← eq, ht]; rfl⟩
    · exact ⟨t, ht⟩
  sole j t ht run := by
    rcases modifyAt_inv ht with ⟨rfl, u, hu, rfl⟩ | ⟨_, old⟩
    · rcases state u hu with cur | ready | same
      · exact cur
      · rw [ready] at run
        cases run
      · exact h.sole j u hu (same.symm.trans run)
    · exact h.sole j t old run
  idle := h.idle

theorem Awake.modifyAt (h : s.Awake) {i : Fin maxThreads} {f : Tcb → Tcb}
    (state : ∀ t, s.threads i = some t → s.currentIdx = some i →
      (f t).state = .running ∨ (f t).state = .ready ∨ (f t).state = t.state) :
    (s.modifyAt i f).Awake := by
  intro j t cur ht
  rcases modifyAt_inv ht with ⟨rfl, u, hu, rfl⟩ | ⟨_, old⟩
  · rcases state u hu cur with run | ready | same
    · exact Or.inl run
    · exact Or.inr ready
    · rw [same]
      exact h j u cur hu
  · exact h j t cur old

/-- No thread is made ready behind the back of the queues. -/
theorem Complete.modifyAt (h : s.Complete) {i : Fin maxThreads} {f : Tcb → Tcb}
    (prio : ∀ t, (f t).priority = t.priority)
    (state : ∀ t, s.threads i = some t → s.currentIdx = some i ∨
      ((f t).state = .ready → t.state = .ready)) : (s.modifyAt i f).Complete := by
  intro j t ht ready away
  rcases modifyAt_inv ht with ⟨rfl, u, hu, rfl⟩ | ⟨_, old⟩
  · rcases state u hu with cur | was
    · exact absurd cur away
    · rw [prio u]
      exact h j u hu (was ready) away
  · exact h j t old ready away

/-- A write to the running thread that leaves it able to go on. -/
theorem current_advances (h : s.Orderly) (awake : s.Awake) {i : Fin maxThreads} {f : Tcb → Tcb}
    (cur : s.currentIdx = some i) (prio : ∀ t, (f t).priority = t.priority)
    (state : ∀ t, (f t).state = .running ∨ (f t).state = .ready ∨ (f t).state = t.state) :
    Advances s (s.modifyAt i f) where
  orderly := h.modifyAt prio fun _ _ => Or.inl cur
  awake := awake.modifyAt fun t _ _ => state t
  complete full := full.modifyAt prio fun _ _ => Or.inl cur
  dropped_eq := rfl

/-- A thread is made ready by its state alone: no wakeup is lost if it was ready or runs. -/
theorem setReady_advances (h : s.Orderly) (awake : s.Awake) {i : Fin maxThreads} {f : Tcb → Tcb}
    (prio : ∀ t, (f t).priority = t.priority) (ready : ∀ t, (f t).state = .ready) :
    (s.modifyAt i f).Orderly ∧ (s.modifyAt i f).Awake ∧
      ((∀ t, s.threads i = some t → t.state = .ready ∨ t.state = .running) →
        s.Complete → (s.modifyAt i f).Complete) := by
  refine ⟨h.modifyAt prio fun t _ => Or.inr (Or.inl (ready t)),
    awake.modifyAt fun t _ _ => Or.inr (Or.inl (ready t)), fun calm full => ?_⟩
  refine full.modifyAt prio fun t ht => ?_
  rcases calm t ht with was | run
  · exact Or.inr fun _ => was
  · exact Or.inl (h.sole i t ht run)

theorem wakeThread_advances (h : s.Orderly) (awake : s.Awake) (tid : Nat) :
    Advances s (s.wakeThread tid) := by
  unfold wakeThread
  split
  case _ i found =>
    have sleeping := List.find?_some found
    obtain ⟨t, ht, asleep⟩ : ∃ t, s.threads i = some t ∧ t.state.asleep = true := by
      cases ht : s.threads i with
      | none => simp [ht] at sleeping
      | some t =>
        refine ⟨t, rfl, ?_⟩
        simp only [ht, Option.any_some, sleeps, Bool.and_eq_true] at sleeping
        exact sleeping.2
    have not_ready : t.state ≠ .ready := by
      intro eq
      rw [eq] at asleep
      cases asleep
    have not_current : s.currentIdx ≠ some i := by
      intro cur
      rcases awake i t cur ht with run | ready
      · rw [run] at asleep
        cases asleep
      · exact not_ready ready
    have out : ∀ p, i ∉ (s.queues p).items := h.toQueuesOk.not_mem ht not_ready
    set s₀ := s.modifyAt i (·.withState .ready) with hs₀
    have order₀ : s₀.Orderly := h.modifyAt (fun _ => rfl) fun _ _ => Or.inr (Or.inl rfl)
    have ht₀ : s₀.threads i = some (t.withState .ready) := by
      rw [hs₀, modifyAt_threads, if_pos rfl, ht]
      rfl
    rw [requeueCurrent_eq order₀.toQueuesOk ht₀ (out _)]
    have items := pushed_items order₀.toQueuesOk (t := t.withState .ready) (out _)
    refine ⟨⟨order₀.toQueuesOk.pushed ht₀ rfl (out _), ?_, order₀.present, order₀.sole, order₀.idle⟩,
      awake.modifyAt fun _ _ _ => Or.inr (Or.inl rfl), ?_, rfl⟩
    · intro p j mem cur
      rw [items] at mem
      split_ifs at mem
      · rcases List.mem_append.mp mem with old | new
        · exact h.apart p j old cur
        · cases List.mem_singleton.mp new
          exact not_current cur
      · exact h.apart p j mem cur
    · intro full j u hu ready away
      rw [items]
      rcases modifyAt_inv (s := s) hu with ⟨rfl, v, hv, rfl⟩ | ⟨_, old⟩
      · rw [ht] at hv
        cases hv
        simp
      · have mem := full j u old ready away
        split_ifs
        · exact List.mem_append_left _ mem
        · exact mem
  case _ => exact ⟨h, awake, id, rfl⟩

theorem findEmptySlot_eq_some {i : Fin maxThreads} (h : s.findEmptySlot = some i) :
    s.threads i = none := by simpa using List.find?_some h

/-- A new thread always finds room in its queue. -/
theorem add_eq (h : s.Orderly) {i : Fin maxThreads} (slot : s.findEmptySlot = some i) (thread : Tcb) :
    add thread s = .ok () ((s.setThread i (some (thread.withState .ready))).pushed
      (thread.withState .ready) i) := by
  have free := findEmptySlot_eq_some slot
  have out : i ∉ (s.queues thread.priority).items := by
    intro mem
    obtain ⟨t, ht, _⟩ := h.ready _ i mem
    rw [free] at ht
    cases ht
  have room := (ThreadQueue.push_fst (s.queues thread.priority) i).mpr (h.toQueuesOk.room out)
  simp only [add, slot, pushed, setThread_queues, Tcb.withState_priority]
  generalize (s.queues thread.priority).push i = r at room
  obtain ⟨_, q⟩ := r
  cases room
  rfl

theorem add_advances (h : s.Orderly) (awake : s.Awake) {thread : Tcb} {u : Unit}
    (ok : add thread s = .ok u s') : Advances s s' := by
  cases slot : s.findEmptySlot with
  | none => simp [add, slot] at ok
  | some i =>
    rw [add_eq h slot] at ok
    cases ok
    have free := findEmptySlot_eq_some slot
    have other : ∀ {j t}, s.threads j = some t → j ≠ i := by
      rintro j t ht rfl
      rw [free] at ht
      cases ht
    set t₀ := thread.withState .ready with ht₀
    set s₀ := s.setThread i (some t₀) with hs₀
    have same : ∀ {j t}, s.threads j = some t → s₀.threads j = some t := by
      intro j t ht
      rw [hs₀, setThread_threads, if_neg (other ht), ht]
    have inv : ∀ {j t}, s₀.threads j = some t → (j = i ∧ t = t₀) ∨ s.threads j = some t := by
      intro j t ht
      rw [hs₀, setThread_threads] at ht
      split_ifs at ht with eq
      · exact Or.inl ⟨eq, (Option.some.inj ht).symm⟩
      · exact Or.inr ht
    have out : ∀ p, i ∉ (s.queues p).items := by
      intro p mem
      obtain ⟨t, ht, _⟩ := h.ready p i mem
      exact other ht rfl
    have not_current : s.currentIdx ≠ some i := by
      intro cur
      obtain ⟨t, ht⟩ := h.present i cur
      exact other ht rfl
    have ok₀ : s₀.QueuesOk := by
      refine ⟨fun p j mem => ?_, h.nodup⟩
      obtain ⟨t, ht, ready, prio⟩ := h.ready p j mem
      exact ⟨t, same ht, ready, prio⟩
    have here : s₀.threads i = some t₀ := by simp [hs₀, setThread]
    have items := pushed_items ok₀ (t := t₀) (out _)
    refine ⟨⟨ok₀.pushed here rfl (out _), ?_, ?_, ?_, h.idle⟩, ?_, ?_, rfl⟩
    · intro p j mem cur
      rw [items] at mem
      split_ifs at mem
      · rcases List.mem_append.mp mem with old | new
        · exact h.apart p j old cur
        · cases List.mem_singleton.mp new
          exact not_current cur
      · exact h.apart p j mem cur
    · intro j cur
      obtain ⟨t, ht⟩ := h.present j cur
      exact ⟨t, same ht⟩
    · intro j t ht run
      rcases inv ht with ⟨_, rfl⟩ | old
      · cases run
      · exact h.sole j t old run
    · intro j t cur ht
      rcases inv ht with ⟨rfl, _⟩ | old
      · exact absurd cur not_current
      · exact awake j t cur old
    · intro full j t ht ready away
      rw [items]
      rcases inv ht with ⟨rfl, rfl⟩ | old
      · simp
      · have mem := full j t old ready away
        split_ifs
        · exact List.mem_append_left _ mem
        · exact mem

/-- The first start, from a state in which nobody runs. -/
theorem run_advances (h : s.Orderly) (off : s.running = false) {u : Unit} (ok : run s = .ok u s') :
    Advances s s' ∧ (s.RunsRunnable → s.Relieved → s'.RunsRunnable) := by
  have none_current := h.idle off
  set s₁ : Scheduler := { s with running := true } with hs₁
  have ok₁ : s₁.QueuesOk := ⟨h.ready, h.nodup⟩
  have none_running : ∀ j t, s₁.threads j = some t → t.state ≠ .running := by
    intro j t ht run
    have cur := h.sole j t ht run
    rw [none_current] at cur
    cases cur
  have full : s.Complete → ∀ j t, s₁.threads j = some t → t.state = .ready →
      j ∈ (s₁.queues t.priority).items :=
    fun complete j t ht ready => complete j t ht ready (by simp [none_current])
  simp only [run, ← hs₁] at ok
  rcases popNext_cases ok₁ with ⟨p, i, q, items, pop⟩ | ⟨empty, pop⟩
  · rw [pop] at ok
    cases ok
    obtain ⟨ok₂, out⟩ := ok₁.popped items
    obtain ⟨t, ht, ready, _⟩ := ok₁.ready p i (items ▸ List.mem_cons_self)
    refine ⟨activate_advances ok₂ out ⟨t, ht⟩ none_running rfl ?_ rfl, fun past _ => ?_⟩
    · intro complete j v hv state ne
      have mem := full complete j v hv state
      rw [setQueue_queues]
      split_ifs with eq
      · rw [eq, items] at mem
        exact (List.mem_cons.mp mem).resolve_left ne
      · exact mem
    · have past₁ : (s₁.setQueue p q).RunsRunnable := past
      exact past₁.activate ht ready
  · rw [pop] at ok
    cases live : s₁.firstLive with
    | none => simp [live] at ok
    | some i =>
      rw [live] at ok
      cases ok
      obtain ⟨t, ht, alive⟩ := firstLive_eq_some live
      refine ⟨activate_advances ok₁ (fun p mem => ?_) ⟨t, ht⟩ none_running rfl
        (fun complete j v hv state _ => full complete j v hv state) rfl, fun _ relieved => ?_⟩
      · rw [empty p] at mem
        cases mem
      · rcases relieved with ⟨p, some_item⟩ | dead
        · exact absurd (empty p) some_item
        · exact absurd (dead i t ht) alive

end Scheduler

end CapsuleOS
