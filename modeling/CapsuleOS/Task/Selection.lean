import CapsuleOS.Task.GivingWay
import CapsuleOS.Task.Fates

/-!
# Selection

`schedule` puts the previous thread behind its equals, if it can go on, drops dead threads from the
queues and takes the first other one. `Selects` says so of any state in which the queues list no thread
twice; a queue is first in, first out over whole runs.
-/
namespace CapsuleOS

open Lib

namespace Scheduler

/-- All entries, in the order in which they are popped. -/
def entries (s : Scheduler) : List (Fin maxThreads) := Priority.levels.flatMap fun p => (s.queues p).items

/-- What `next` is to the queues `line`, and what is left of them: the dead entries before it are gone. -/
structure Selects (s : Scheduler) (line : Priority → List (Fin maxThreads)) (next : Fin maxThreads)
    (s' : Scheduler) : Prop where
  alive : s.isDead next = false
  first : ∃ above p below dead rest, Priority.levels = above ++ p :: below ∧
    (∀ q ∈ above, (∀ i ∈ line q, s.isDead i = true) ∧ (s'.queues q).items = []) ∧
    line p = dead ++ next :: rest ∧ (∀ i ∈ dead, s.isDead i = true) ∧ (s'.queues p).items = rest ∧
    ∀ q ∈ below, (s'.queues q).items = line q
  current : s'.currentIdx = some next
  state : (s'.threads next).map (·.state) = some .running

/-- The queues with `prev` behind its equals when `goesOn`. The priority is the one it has when its time
slice has been accounted for. -/
def lineUp (s : Scheduler) (prev : Fin maxThreads) (t : Tcb) (goesOn : Prop) [Decidable goesOn] (q : Priority) :
    List (Fin maxThreads) :=
  if goesOn ∧ q = t.expire.priority then (s.queues q).items ++ [prev] else (s.queues q).items

variable {s s' : Scheduler}

/-! ## Popping -/

section Popping

variable {above below : List Priority} {p : Priority} {dead rest : List (Fin maxThreads)}
  {i next : Fin maxThreads} {fuel : Nat}

theorem popCandidate_at (levels : Priority.levels = above ++ p :: below)
    (empty : ∀ q ∈ above, (s.queues q).items = []) (items : (s.queues p).items = i :: rest) :
    ∃ q : ThreadQueue, q.items = rest ∧ s.popCandidate = some (i, s.setQueue p q) := by
  have none_above : above.findSome? (fun p =>
      (s.queues p).popHighestPriority.map fun r => (r.1, s.setQueue p r.2)) = none := by
    rw [List.findSome?_eq_none_iff]
    intro q mem
    rw [ThreadQueue.pop_eq_none.mpr (empty q mem), Option.map_none]
  cases popped : (s.queues p).popHighestPriority with
  | none =>
    rw [ThreadQueue.pop_eq_none.mp popped] at items
    cases items
  | some r =>
    have split := @ThreadQueue.pop_eq_some _ r.2 r.1 popped
    rw [items] at split
    obtain ⟨first, others⟩ := List.cons.inj split
    refine ⟨r.2, others.symm, ?_⟩
    rw [popCandidate, levels, List.findSome?_append, none_above, Option.none_or, List.findSome?_cons,
      popped, Option.map_some, first]

/-- The dead entries at the front of a queue are dropped. -/
theorem popLoop_drop (levels : Priority.levels = above ++ p :: below)
    (empty : ∀ q ∈ above, (s.queues q).items = []) (items : (s.queues p).items = dead ++ rest)
    (gone : ∀ i ∈ dead, s.isDead i = true) : ∃ q : ThreadQueue, q.items = rest ∧
      popLoop (dead.length + fuel) s = popLoop fuel (s.setQueue p q) := by
  induction dead generalizing s with
  | nil =>
    refine ⟨s.queues p, items, ?_⟩
    rw [setQueue, Function.update_eq_self, List.length_nil, Nat.zero_add]
  | cons i dead ih =>
    obtain ⟨q, left, popped⟩ := popCandidate_at levels empty (List.cons_append ▸ items)
    have elsewhere : ∀ q' ∈ above, q' ≠ p := by
      have nodup : Priority.levels.Nodup := by decide
      rw [levels] at nodup
      grind [List.nodup_append]
    obtain ⟨q', left', ran⟩ := ih (s := s.setQueue p q)
      (fun q'' mem => by rw [setQueue_queues, if_neg (elsewhere q'' mem), empty q'' mem])
      (by rw [setQueue_queues, if_pos rfl, left]) fun j mem => gone j (List.mem_cons_of_mem _ mem)
    have is_dead : (s.setQueue p q).isDead i = true := gone i List.mem_cons_self
    refine ⟨q', left', ?_⟩
    rw [List.length_cons, Nat.add_right_comm, popLoop, popped]
    simp only [is_dead, if_true]
    rw [ran, setQueue, setQueue, Function.update_idem]
    rfl

/-- Queues that hold dead entries only are emptied. -/
theorem popLoop_drain {drained : List Priority} (levels : Priority.levels = drained ++ above ++ below)
    (empty : ∀ q ∈ drained, (s.queues q).items = [])
    (gone : ∀ q ∈ above, ∀ i ∈ (s.queues q).items, s.isDead i = true) :
    ∃ queues : Priority → ThreadQueue, (∀ q ∈ drained ++ above, (queues q).items = []) ∧
      (∀ q ∈ below, queues q = s.queues q) ∧
      popLoop ((above.flatMap fun q => (s.queues q).items).length + fuel) s =
        popLoop fuel { s with queues } := by
  induction above generalizing s drained with
  | nil => exact ⟨s.queues, by simpa using empty, fun _ _ => rfl, by simp⟩
  | cons p above ih =>
    have nodup : (drained ++ p :: above ++ below).Nodup := levels ▸ (by decide : Priority.levels.Nodup)
    set n := (above.flatMap fun q => (s.queues q).items).length with n_eq
    obtain ⟨e, none_left, ran⟩ : ∃ e : ThreadQueue, e.items = [] ∧
        popLoop ((s.queues p).items.length + (n + fuel)) s = popLoop (n + fuel) (s.setQueue p e) :=
      popLoop_drop (levels.trans (by simp : _ = drained ++ p :: (above ++ below))) empty
        (List.append_nil _).symm (gone p List.mem_cons_self)
    have others : ∀ q, q ≠ p → (s.setQueue p e).queues q = s.queues q := fun q ne => by
      rw [setQueue_queues, if_neg ne]
    have same : (above.flatMap fun q => ((s.setQueue p e).queues q).items) =
        above.flatMap fun q => (s.queues q).items := by
      refine List.flatMap_congr fun q mem => ?_
      rw [others q (by grind)]
    have empty' : ∀ q ∈ drained ++ [p], ((s.setQueue p e).queues q).items = [] := by
      intro q mem
      rcases List.mem_append.mp mem with old | new
      · rw [others q (by grind), empty q old]
      · rw [List.mem_singleton.mp new, setQueue_queues, if_pos rfl, none_left]
    have gone' : ∀ q ∈ above, ∀ i ∈ ((s.setQueue p e).queues q).items, s.isDead i = true := by
      intro q mem i here
      rw [others q (by grind)] at here
      exact gone q (List.mem_cons_of_mem _ mem) i here
    obtain ⟨queues, all_empty, kept, ran'⟩ := ih (s := s.setQueue p e) (by rw [levels]; simp) empty' gone'
    refine ⟨queues, fun q mem => all_empty q (by simpa using mem), fun q mem => ?_, ?_⟩
    · rw [kept q mem, others q (by grind)]
    · rw [List.flatMap_cons, List.length_append, Nat.add_assoc, ran, n_eq, ← same, ran']
      rfl

/-- Enough rounds find the first entry that is not dead. -/
theorem popLoop_finds (levels : Priority.levels = above ++ p :: below)
    (gone : ∀ q ∈ above, ∀ i ∈ (s.queues q).items, s.isDead i = true)
    (items : (s.queues p).items = dead ++ next :: rest) (dropped : ∀ i ∈ dead, s.isDead i = true)
    (alive : s.isDead next = false) (rounds : s.entries.length ≤ fuel) :
    ∃ queues : Priority → ThreadQueue, (∀ q ∈ above, (queues q).items = []) ∧
      (queues p).items = rest ∧ (∀ q ∈ below, queues q = s.queues q) ∧
      popLoop fuel s = (some next, { s with queues }) := by
  have nodup : (above ++ p :: below).Nodup := levels ▸ (by decide : Priority.levels.Nodup)
  have count : s.entries.length = (above.flatMap fun q => (s.queues q).items).length +
      (dead.length + (rest.length + 1 + (below.flatMap fun q => (s.queues q).items).length)) := by
    unfold entries
    rw [levels, List.flatMap_append, List.flatMap_cons, items]
    simp only [List.length_append, List.length_cons]
    omega
  obtain ⟨more, rfl⟩ : ∃ more, fuel = (above.flatMap fun q => (s.queues q).items).length +
      (dead.length + (more + 1)) :=
    ⟨fuel - s.entries.length + (rest.length + (below.flatMap fun q => (s.queues q).items).length), by omega⟩
  obtain ⟨queues, empty, kept, ran⟩ : ∃ queues : Priority → ThreadQueue,
      (∀ q ∈ [] ++ above, (queues q).items = []) ∧ (∀ q ∈ p :: below, queues q = s.queues q) ∧ _ =
        popLoop (dead.length + (more + 1)) { s with queues } :=
    popLoop_drain (by rw [levels]; simp) (by simp) gone
  obtain ⟨e, left, ran'⟩ : ∃ e : ThreadQueue, e.items = next :: rest ∧
      popLoop (dead.length + (more + 1)) { s with queues } =
        popLoop (more + 1) ({ s with queues }.setQueue p e) :=
    popLoop_drop (s := { s with queues }) levels empty
      ((congrArg ThreadQueue.items (kept p List.mem_cons_self)).trans items) dropped
  have others : ∀ q, q ≠ p → ({ s with queues }.setQueue p e).queues q = queues q := fun q ne => by
    rw [setQueue_queues, if_neg ne]
  obtain ⟨e', left', popped⟩ := popCandidate_at (s := { s with queues }.setQueue p e) levels
    (fun q mem => by rw [others q (by grind), empty q mem]) (by rw [setQueue_queues, if_pos rfl, left])
  refine ⟨Function.update queues p e', fun q mem => ?_, ?_, fun q mem => ?_, ?_⟩
  · rw [Function.update_of_ne (by grind), empty q mem]
  · rw [Function.update_self, left']
  · rw [Function.update_of_ne (by grind), kept q (List.mem_cons_of_mem _ mem)]
  · have is_alive : ({ s with queues }.setQueue p e |>.setQueue p e').isDead next = false := alive
    rw [ran, ran', popLoop, popped]
    simp only [is_alive]
    rw [setQueue, setQueue, Function.update_idem]
    rfl

end Popping

/-! ## One call -/

section Schedule

variable {prev : Fin maxThreads} {t : Tcb}

theorem retire_threads (s : Scheduler) (prev : Fin maxThreads) :
    (s.retire prev).threads = (s.modifyAt prev Tcb.expire).threads := by
  unfold retire
  dsimp only
  split
  · split_ifs
    · rw [requeueCurrent_threads]
    · rfl
  · rfl

theorem retire_isDead (s : Scheduler) (prev i : Fin maxThreads) : (s.retire prev).isDead i = s.isDead i := by
  unfold isDead
  rw [retire_threads, modifyAt_threads]
  split_ifs with here
  · subst here
    cases s.threads i with
    | none => rfl
    | some t => cases state : t.state <;> simp [state]
  · rfl

/-- There is room for the previous thread. -/
theorem retire_items (thread : s.threads prev = some t) (room : ∀ p, (s.queues p).items.length < maxThreads)
    (q : Priority) : ((s.retire prev).queues q).items =
      s.lineUp prev t (t.state = .running ∨ t.state = .ready) q := by
  have now : (s.modifyAt prev Tcb.expire).threads prev = some t.expire := by
    rw [modifyAt_threads, if_pos rfl, thread]
    rfl
  have unfolded : s.retire prev = if t.expire.state = .ready then
      (s.modifyAt prev Tcb.expire).requeueCurrent prev else s.modifyAt prev Tcb.expire := by
    simp only [retire, now]
  rw [unfolded, lineUp]
  by_cases ready : t.expire.state = .ready
  · have goes_on := expire_ready.mp ready
    have pushed := (ThreadQueue.push_fst (s.queues t.expire.priority) prev).mpr (room _)
    have items := ThreadQueue.push_items (s.queues t.expire.priority) prev
    rw [if_pos (room _)] at items
    simp only [if_pos ready, requeueCurrent, now, modifyAt_queues]
    generalize (s.queues t.expire.priority).push prev = r at pushed items
    obtain ⟨ok, q'⟩ := r
    cases pushed
    simp only [setQueue_queues, modifyAt_queues, goes_on, true_and]
    split_ifs with same
    · rw [same, items]
    · rfl
  · have stays := mt expire_ready.mpr ready
    simp only [if_neg ready, stays, false_and, if_false, modifyAt_queues]

theorem room_of_once (once : s.entries.Nodup) (away : prev ∉ s.entries) (p : Priority) :
    s.entries.length < maxThreads ∧ (s.queues p).items.length < maxThreads := by
  have all : (prev :: s.entries).Nodup := List.nodup_cons.mpr ⟨away, once⟩
  have few := all.length_le_card
  rw [Fintype.card_fin, List.length_cons] at few
  have part : (s.queues p).items.length ≤ s.entries.length := by
    rw [entries, List.flatMap_def]
    have mem : (s.queues p).items ∈ Priority.levels.map fun p => (s.queues p).items :=
      List.mem_map_of_mem p.mem_levels
    exact (List.sublist_flatten_of_mem mem).length_le
  omega

theorem retire_entries (thread : s.threads prev = some t)
    (room : ∀ p, (s.queues p).items.length < maxThreads) :
    (s.retire prev).entries.length ≤ s.entries.length + 1 := by
  unfold entries
  rw [List.flatMap_congr fun q _ => retire_items thread room q]
  by_cases goes_on : t.state = .running ∨ t.state = .ready
  · cases prio : t.expire.priority <;>
      simp [Priority.levels, lineUp, goes_on, prio] <;> omega
  · simp [lineUp, goes_on]

/-- The first level with an entry that is not dead, and the first such entry in it. -/
theorem exists_first {line : Priority → List (Fin maxThreads)} {q : Priority} {i : Fin maxThreads}
    (mem : i ∈ line q) (alive : s.isDead i = false) :
    ∃ above p below dead next rest, Priority.levels = above ++ p :: below ∧
      (∀ q ∈ above, ∀ i ∈ line q, s.isDead i = true) ∧ line p = dead ++ next :: rest ∧
      (∀ i ∈ dead, s.isDead i = true) ∧ s.isDead next = false := by
  have live : ∀ {xs : List (Fin maxThreads)}, (xs.any fun i => !s.isDead i) = true ↔
      ∃ i ∈ xs, s.isDead i = false := by simp
  have some_level : (Priority.levels.find? fun q => (line q).any fun i => !s.isDead i).isSome :=
    List.find?_isSome.mpr ⟨q, q.mem_levels, live.mpr ⟨i, mem, alive⟩⟩
  obtain ⟨p, found⟩ := Option.isSome_iff_exists.mp some_level
  obtain ⟨here, above, below, levels, others⟩ := List.find?_eq_some_iff_append.mp found
  have some_entry : ((line p).find? fun i => !s.isDead i).isSome := by
    rw [List.find?_isSome]
    simpa using here
  obtain ⟨next, found'⟩ := Option.isSome_iff_exists.mp some_entry
  obtain ⟨alive', dead, rest, items, before⟩ := List.find?_eq_some_iff_append.mp found'
  refine ⟨above, p, below, dead, next, rest, levels, fun q mem i here => ?_, items, fun i mem => ?_, ?_⟩
  · have none_alive := others q mem
    simp only [Bool.not_eq_true', List.any_eq_false, Bool.not_eq_true'] at none_alive
    simpa using none_alive i here
  · simpa using before i mem
  · simpa using alive'

theorem schedule_selects (started : s.running = true) (cur : s.currentIdx = some prev)
    (thread : s.threads prev = some t) (once : s.entries.Nodup) (away : prev ∉ s.entries)
    (live : ∃ i ∈ s.entries, s.isDead i = false) :
    ∃ next s', schedule s = .ok () s' ∧
      s.Selects (s.lineUp prev t (t.state = .running ∨ t.state = .ready)) next s' := by
  have room := fun p => (room_of_once once away p).2
  have few := (room_of_once once away .idle).1
  have items := retire_items thread room
  obtain ⟨i, mem, alive⟩ := live
  obtain ⟨q, _, mem_q⟩ := List.mem_flatMap.mp mem
  have mem_line : i ∈ s.lineUp prev t (t.state = .running ∨ t.state = .ready) q := by
    unfold lineUp
    split_ifs
    · exact List.mem_append_left _ mem_q
    · exact mem_q
  obtain ⟨above, p, below, dead, next, rest, levels, gone, split, dropped, alive'⟩ :=
    exists_first mem_line alive
  have kept : ∀ j, (s.retire prev).isDead j = s.isDead j := retire_isDead s prev
  obtain ⟨queues, empty, left, same, ran⟩ := popLoop_finds (s := s.retire prev) levels
    (fun q mem j here => (kept j).trans (gone q mem j (items q ▸ here))) ((items p).trans split)
    (fun j mem => (kept j).trans (dropped j mem)) ((kept next).trans alive')
    ((retire_entries thread room).trans few)
  have present : (s.retire prev).threads prev ≠ none := by
    rw [retire_threads, modifyAt_threads, if_pos rfl, thread]
    exact Option.some_ne_none _
  obtain ⟨u, selected⟩ : ∃ u, (s.retire prev).threads next = some u := by
    refine Option.ne_none_iff_exists'.mp fun gone => ?_
    rw [← kept, isDead, gone] at alive'
    cases alive'
  refine ⟨next, { s.retire prev with queues }.activate next, ?_, alive',
    ⟨above, p, below, dead, rest, levels, fun q mem => ⟨gone q mem, empty q mem⟩, split, dropped, left,
      fun q mem => ?_⟩, rfl, ?_⟩
  · unfold schedule
    simp only [started, if_true, cur, selectNext, popNextFromAllQueues, ran]
    rw [if_neg fun gone => present gone.2]
  · exact (congrArg ThreadQueue.items (same q mem)).trans (items q)
  · have now : ({ s.retire prev with queues }.activate next).threads next = some u.activate := by
      simp [activate, modifyAt, setThread, selected]
    rw [now]
    rfl

end Schedule

/-! ## First in, first out -/

/-- New entries stand behind the old ones, all of which are still there. -/
def Grows (s s' : Scheduler) : Prop := ∀ p, ∃ added, (s'.queues p).items = (s.queues p).items ++ added

/-- New entries stand behind the old ones, and an old one has gone from the front because its thread is
dead or has been selected. -/
def Serves (s s' : Scheduler) : Prop := ∀ p, ∃ gone kept added, (s.queues p).items = gone ++ kept ∧
  (s'.queues p).items = kept ++ added ∧ ∀ i ∈ gone, s'.isDead i = true ∨ s'.currentIdx = some i

theorem Grows.of_queues (same : s'.queues = s.queues) : Grows s s' := fun p => ⟨[], by rw [same, List.append_nil]⟩

theorem Grows.refl (s : Scheduler) : Grows s s := .of_queues rfl

theorem Grows.trans {s'' : Scheduler} (h : Grows s s') (h' : Grows s' s'') : Grows s s'' := by
  intro p
  obtain ⟨added, eq⟩ := h p
  obtain ⟨more, eq'⟩ := h' p
  exact ⟨added ++ more, by rw [eq', eq, List.append_assoc]⟩

theorem Grows.serves (h : Grows s s') : Serves s s' := by
  intro p
  obtain ⟨added, eq⟩ := h p
  exact ⟨[], _, added, rfl, eq, fun i mem => by cases mem⟩

theorem Grows.then_serves {s'' : Scheduler} (h : Grows s s') (h' : Serves s' s'') : Serves s s'' := by
  intro p
  obtain ⟨added, eq⟩ := h p
  obtain ⟨gone, kept, more, split, left, why⟩ := h' p
  rw [eq] at split
  rcases List.append_eq_append_iff.mp split with ⟨gone', rfl, rfl⟩ | ⟨kept', old, rfl⟩
  · -- some of the entries that have gone were new
    exact ⟨(s.queues p).items, [], kept ++ more, (List.append_nil _).symm, left,
      fun i mem => why i (List.mem_append_left _ mem)⟩
  · exact ⟨gone, kept', added ++ more, old, by rw [left, List.append_assoc], why⟩

theorem push_grows (s : Scheduler) (p : Priority) (i : Fin maxThreads) :
    Grows s (s.setQueue p ((s.queues p).push i).2) := by
  intro q
  rw [setQueue_queues]
  split_ifs with same
  · subst same
    rw [ThreadQueue.push_items]
    split_ifs
    · exact ⟨[i], rfl⟩
    · exact ⟨[], (List.append_nil _).symm⟩
  · exact ⟨[], (List.append_nil _).symm⟩

theorem requeueCurrent_grows (s : Scheduler) (i : Fin maxThreads) : Grows s (s.requeueCurrent i) := by
  unfold requeueCurrent
  split
  · exact .refl s
  · rename_i t _
    have pushed := push_grows s t.priority i
    split
    · rename_i q eq
      rwa [eq] at pushed
    · exact .of_queues rfl

theorem retire_grows (s : Scheduler) (prev : Fin maxThreads) : Grows s (s.retire prev) := by
  have expired : Grows s (s.modifyAt prev Tcb.expire) := .of_queues rfl
  unfold retire
  dsimp only
  split
  · split_ifs
    · exact expired.trans (requeueCurrent_grows _ _)
    · exact expired
  · exact expired

theorem add_grows {thread : Tcb} (ran : (add thread s).Ends s') : Grows s s' := by
  unfold add at ran
  split at ran
  · cases ran
  · rename_i i _
    have pushed := push_grows s thread.priority i
    split at ran
    · rename_i q eq
      cases ran
      rw [eq] at pushed
      exact pushed
    · cases ran

/-- What popping takes from the queues. -/
theorem popLoop_pops (fuel : Nat) (s : Scheduler) (p : Priority) :
    ∃ gone, (s.queues p).items = gone ++ ((popLoop fuel s).2.queues p).items ∧
      ∀ i ∈ gone, s.isDead i = true ∨ (popLoop fuel s).1 = some i := by
  induction fuel generalizing s with
  | zero => exact ⟨[], rfl, fun i mem => by cases mem⟩
  | succ fuel ih =>
    rw [popLoop]
    cases pop : s.popCandidate with
    | none => exact ⟨[], rfl, fun i mem => by cases mem⟩
    | some r =>
      obtain ⟨i, s₁⟩ := r
      obtain ⟨q, e, items, rfl⟩ := popCandidate_eq_some pop
      have taken : ∃ gone, (s.queues p).items = gone ++ ((s.setQueue q e).queues p).items ∧
          ∀ j ∈ gone, j = i := by
        rw [setQueue_queues]
        split_ifs with same
        · subst same
          exact ⟨[i], items, fun j mem => List.mem_singleton.mp mem⟩
        · exact ⟨[], rfl, fun j mem => by cases mem⟩
      obtain ⟨gone, split, only⟩ := taken
      dsimp only
      split_ifs with dead
      · obtain ⟨gone', split', why⟩ := ih (s.setQueue q e)
        refine ⟨gone ++ gone', by rw [split, split', List.append_assoc], fun j mem => ?_⟩
        rcases List.mem_append.mp mem with first | later
        · cases only j first
          exact .inl dead
        · exact why j later
      · refine ⟨gone, split, fun j mem => .inr ?_⟩
        rw [only j mem]

theorem activate_serves {s₁ : Scheduler} {next : Fin maxThreads} (threads : s₁.threads = s.threads)
    (pops : ∀ p, ∃ gone, (s.queues p).items = gone ++ (s₁.queues p).items ∧
      ∀ i ∈ gone, s.isDead i = true ∨ some next = some i) : Serves s (s₁.activate next) := by
  intro p
  obtain ⟨gone, split, why⟩ := pops p
  refine ⟨gone, (s₁.queues p).items, [], split, (List.append_nil _).symm, fun i mem => ?_⟩
  by_cases here : i = next
  · exact .inr (congrArg some here.symm)
  · rcases why i mem with dead | selected
    · left
      simpa [isDead, activate, modifyAt_threads, here, threads] using dead
    · exact absurd (Option.some.inj selected).symm here

theorem selectNext_serves {prev : Fin maxThreads} (ran : (selectNext prev s).Ends s') : Serves s s' := by
  have frame := popLoop_frame maxThreads s
  have pops := popLoop_pops maxThreads s
  unfold selectNext popNextFromAllQueues at ran
  generalize popLoop maxThreads s = r at frame pops ran
  obtain ⟨next, s₁⟩ := r
  cases next with
  | some next =>
    dsimp only at ran
    split_ifs at ran <;> cases ran
    exact activate_serves frame.1 pops
  | none =>
    dsimp only at ran
    split_ifs at ran <;> cases ran
    intro p
    obtain ⟨gone, split, why⟩ := pops p
    refine ⟨gone, (s₁.queues p).items, [], split, (List.append_nil _).symm, fun i mem => .inl ?_⟩
    have dead := (why i mem).resolve_right (Option.some_ne_none i).symm
    rwa [isDead, frame.1]

theorem schedule_serves (ran : (schedule s).Ends s') : Serves s s' := by
  unfold schedule at ran
  split_ifs at ran
  · split at ran
    · cases ran
      exact (Grows.refl s).serves
    · rename_i prev _
      exact (retire_grows s prev).then_serves (selectNext_serves ran)
  · cases ran
    exact (Grows.refl s).serves

theorem run_serves (ran : (run s).Ends s') : Serves s s' := by
  have frame := popLoop_frame maxThreads { s with running := true }
  have pops := popLoop_pops maxThreads { s with running := true }
  unfold run popNextFromAllQueues at ran
  generalize popLoop maxThreads { s with running := true } = r at frame pops ran
  obtain ⟨next, s₁⟩ := r
  cases next with
  | some next =>
    cases ran
    exact activate_serves frame.1 pops
  | none => cases ran

end Scheduler

/-! ## Blocking calls -/

instance : Std.Refl Scheduler.Grows := ⟨Scheduler.Grows.refl⟩

instance : IsTrans Scheduler Scheduler.Grows := ⟨fun _ _ _ => Scheduler.Grows.trans⟩

theorem Scheduler.grows_absorbs : Scheduler.Absorbs Scheduler.Grows where
  add _ _ _ := Scheduler.add_grows
  write _ _ _ _ := .of_queues rfl
  requeue := Scheduler.requeueCurrent_grows

/-- Every way in which a call returns serves the queues in order. -/
theorem TaskOp.exec_serves (op : TaskOp) {s s' : Tasks} (ran : (op.exec s).Ends s') :
    s.sched.Serves s'.sched := by
  obtain ⟨u, grows, gives⟩ := Scheduler.grows_absorbs.exec op s s' ran
  cases gives with
  | stays => exact grows.serves
  | schedules ran => exact grows.then_serves (Scheduler.schedule_serves ran)
  | starts ran => exact grows.then_serves (Scheduler.run_serves ran)

/-! ## Who waits behind whom -/

namespace Scheduler

variable {s s' : Scheduler} {p : Priority} {i j : Fin maxThreads}

/-- Both threads are in the queue, `j` behind `i`. -/
def Ahead (s : Scheduler) (p : Priority) (i j : Fin maxThreads) : Prop :=
  ∃ front back, (s.queues p).items = front ++ i :: back ∧ j ∈ back

/-- The thread `i` is in the queue, and `j` is not before it. -/
def Precedes (s : Scheduler) (p : Priority) (i j : Fin maxThreads) : Prop :=
  ∃ front back, (s.queues p).items = front ++ i :: back ∧ j ∉ front

/-- The thread is not dead and does not run. -/
def Waits (s : Scheduler) (i : Fin maxThreads) : Prop := s.isDead i = false ∧ s.currentIdx ≠ some i

/-- A thread that waits moves towards the front. -/
theorem Serves.advance (h : s.Serves s') {front back : List (Fin maxThreads)}
    (items : (s.queues p).items = front ++ i :: back) (waits : s'.Waits i) :
    ∃ dropped front' added, front = dropped ++ front' ∧ (s'.queues p).items = front' ++ i :: (back ++ added) := by
  obtain ⟨gone, kept, added, split, left, why⟩ := h p
  have still : i ∉ gone := fun mem => by
    rcases why i mem with dead | selected
    · rw [waits.1] at dead
      cases dead
    · exact waits.2 selected
  rw [items] at split
  rcases List.append_eq_append_iff.mp split with ⟨more, rfl, rest⟩ | ⟨front', rfl, rfl⟩
  · cases more with
    | nil =>
      rw [List.nil_append] at rest
      exact ⟨front, [], added, (List.append_nil front).symm, by rw [left, ← rest]; rfl⟩
    | cons k more =>
      -- the thread itself would have gone
      obtain rfl : i = k := (List.cons.inj rest).1
      exact absurd (List.mem_append_right _ List.mem_cons_self) still
  · exact ⟨gone, front', added, rfl, by rw [left, List.append_assoc, List.cons_append]⟩

theorem Serves.ahead (h : s.Serves s') (ahead : s.Ahead p i j) (waits : s'.Waits i) : s'.Ahead p i j := by
  obtain ⟨front, back, items, behind⟩ := ahead
  obtain ⟨dropped, front', added, rfl, items'⟩ := h.advance items waits
  exact ⟨front', back ++ added, items', List.mem_append_left _ behind⟩

theorem Serves.precedes (h : s.Serves s') (first : s.Precedes p i j) (waits : s'.Waits i) :
    s'.Precedes p i j := by
  obtain ⟨front, back, items, behind⟩ := first
  obtain ⟨dropped, front', added, rfl, items'⟩ := h.advance items waits
  exact ⟨front', back ++ added, items', fun mem => behind (List.mem_append_right _ mem)⟩

theorem Precedes.ahead (h : s.Precedes p i j) (ne : j ≠ i) (queued : j ∈ (s.queues p).items) :
    s.Ahead p i j := by
  obtain ⟨front, back, items, behind⟩ := h
  rw [items] at queued
  refine ⟨front, back, items, ?_⟩
  grind

end Scheduler

/-- Over any run in which `i` waits all the time. -/
theorem TaskOp.Run.ahead {s₀ s : Tasks} {p : Priority} {i j : Fin maxThreads}
    (run : TaskOp.Run (fun s _ => s.sched.Waits i) s₀ s) (ahead : s₀.sched.Ahead p i j)
    (waits : s.sched.Waits i) : s.sched.Ahead p i j := by
  induction run with
  | start => exact ahead
  | step op _ meets step ih => exact (op.exec_serves step.ran).ahead (ih meets) waits

theorem TaskOp.Run.precedes {s₀ s : Tasks} {p : Priority} {i j : Fin maxThreads}
    (run : TaskOp.Run (fun s _ => s.sched.Waits i) s₀ s) (first : s₀.sched.Precedes p i j)
    (waits : s.sched.Waits i) : s.sched.Precedes p i j := by
  induction run with
  | start => exact first
  | step op _ meets step ih => exact (op.exec_serves step.ran).precedes (ih meets) waits

theorem TaskOp.Run.trans {cond cond' : Tasks → TaskOp → Prop} {s₀ s s' : Tasks}
    (run : TaskOp.Run cond s₀ s) (more : TaskOp.Run cond' s s') : TaskOp.Run (fun _ _ => True) s₀ s' := by
  induction more with
  | start =>
    induction run with
    | start => exact .start
    | step op _ _ step ih => exact ih.step op trivial step
  | step op _ _ step ih => exact ih.step op trivial step

/-! ## The order of selection -/

namespace Scheduler

/-- The scheduler has been started, a thread is current, no thread is in the queues twice, the current one
is in none, and some queued thread is not dead. -/
structure Selectable (s : Scheduler) (prev : Fin maxThreads) (t : Tcb) : Prop where
  started : s.running = true
  current : s.currentIdx = some prev
  thread : s.threads prev = some t
  once : s.entries.Nodup
  away : prev ∉ s.entries
  live : ∃ i ∈ s.entries, s.isDead i = false

/-- While `i` is in a queue, not dead and not selected, a thread behind it stays behind it and is not
selected, and a thread that joins the queue later stands behind it. -/
structure FirstServed (s₀ s : Scheduler) (p : Priority) (i j : Fin maxThreads) : Prop where
  behind : s₀.Ahead p i j → s.Ahead p i j ∧ s.currentIdx ≠ some j
  later : j ≠ i → i ∈ (s₀.queues p).items → j ∉ (s₀.queues p).items → j ∈ (s.queues p).items →
    s.Ahead p i j

end Scheduler

open Scheduler in
/-- A call of `schedule` puts the previous thread behind its equals if it was running or ready, and selects
the first thread that is not dead from the first queue that has one; and over the runs of the machine
the threads of a queue are selected in the order in which they have joined it. -/
theorem schedule_selection_order :
    (∀ (s : Scheduler) (prev : Fin maxThreads) (t : Tcb), s.Selectable prev t →
      ∃ next s', schedule s = .ok () s' ∧
        s.Selects (s.lineUp prev t (t.state = .running ∨ t.state = .ready)) next s') ∧
    ∀ (s₀ s : Tasks) (p : Priority) (i j : Fin maxThreads),
      TaskOp.Run (fun _ _ => True) Tasks.boot s₀ →
      TaskOp.Run (fun s _ => s.sched.Waits i) s₀ s → s.sched.Waits i →
      FirstServed s₀.sched s.sched p i j := by
  refine ⟨fun s prev t h => schedule_selects h.started h.current h.thread h.once h.away h.live,
    fun s₀ s p i j before run waits => ⟨fun ahead => ?_, fun ne queued absent joined => ?_⟩⟩
  · have order := ((before.trans run).orderly new_orderly new_awake).1
    obtain ⟨front, back, items, behind⟩ := run.ahead ahead waits
    refine ⟨⟨front, back, items, behind⟩, order.apart p j ?_⟩
    rw [items]
    exact List.mem_append_right _ (List.mem_cons_of_mem _ behind)
  · obtain ⟨front, back, items⟩ := List.append_of_mem queued
    have first : s₀.sched.Precedes p i j := by
      refine ⟨front, back, items, fun mem => absent ?_⟩
      rw [items]
      exact List.mem_append_left _ mem
    exact (run.precedes first waits).ahead ne joined

/-- Three threads, of which the first runs. -/
def Tasks.trio : Tasks :=
  TaskOp.after Tasks.boot [.add (Tcb.demo 1), .add (Tcb.demo 2), .add (Tcb.demo 3), .run]

theorem Tasks.trio_run : TaskOp.Run (fun _ _ => True) Tasks.boot Tasks.trio :=
  TaskOp.Run.start.follow ⟨trivial, trivial, by decide, trivial, trivial, by decide, trivial, trivial,
    by decide, trivial, rfl, by decide, trivial⟩

open Scheduler in
/-- The first of three gives way, and the second waits before the third. -/
theorem schedule_selection_order_trio :
    (∃ t next s', schedule Tasks.trio.sched = .ok () s' ∧ Tasks.trio.sched.Selects
      (Tasks.trio.sched.lineUp ⟨0, by decide⟩ t (t.state = .running ∨ t.state = .ready)) next s') ∧
    FirstServed Tasks.trio.sched (TaskOp.after Tasks.trio [.channelWake 1]).sched .normal
      ⟨1, by decide⟩ ⟨2, by decide⟩ := by
  constructor
  · obtain ⟨next, s', ran, selects⟩ := schedule_selection_order.1 Tasks.trio.sched ⟨0, by decide⟩ _
      ⟨rfl, rfl, rfl, by decide, by decide, ⟨⟨1, by decide⟩, by decide, rfl⟩⟩
    exact ⟨_, next, s', ran, selects⟩
  · refine schedule_selection_order.2 _ _ .normal _ _ Tasks.trio_run
      (TaskOp.Run.start.follow ⟨⟨rfl, by decide⟩, trivial, by decide, trivial⟩) ⟨rfl, by decide⟩

/-- A thread of high priority that has started itself, so that it is ready while it runs. -/
def Tasks.restarted : Tasks :=
  TaskOp.after Tasks.boot [.add { Tcb.demo 1 with priority := .high }, .add (Tcb.demo 2), .run, .threadStart 1]

open Scheduler in
/-- The previous thread lines up although it was not running, and is selected again. -/
theorem ready_thread_lines_up : ¬ ∀ (s : Scheduler) (prev : Fin maxThreads) (t : Tcb), s.Selectable prev t →
    ∃ next s', schedule s = .ok () s' ∧ s.Selects (s.lineUp prev t (t.state = .running)) next s' := by
  intro claim
  obtain ⟨next, s', ran, selects⟩ := claim Tasks.restarted.sched ⟨0, by decide⟩ _
    ⟨rfl, rfl, rfl, by decide, by decide, ⟨⟨1, by decide⟩, by decide, rfl⟩⟩
  have again : (schedule Tasks.restarted.sched).state.currentIdx = some ⟨0, by decide⟩ := by decide
  rw [ran, Outcome.state_ok, selects.current, Option.some_inj] at again
  subst again
  obtain ⟨_, p, _, dead, rest, _, _, split, _⟩ := selects.first
  have mem := split ▸ List.mem_append_right dead (List.mem_cons_self (l := rest))
  revert mem
  cases p <;> decide

end CapsuleOS
