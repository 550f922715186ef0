import CapsuleOS.Task.FutexWaits

/-!
# Requeueing

`Futex::requeue` wakes as `Futex::wake` does and never looks at the new address. What it is for is
`RequeuesExactly`: the threads that are not woken wait behind those on the new address.
-/
namespace CapsuleOS

open Lib

/-- The threads that waited on `newAddr` already. -/
def FutexTrace.standing (tr : FutexTrace) (addr newAddr : Nat) : List Nat :=
  if newAddr = addr then [] else tr.waitersOn newAddr

/-- The longest-waiting threads on `addr` are made ready, as many as `count` says; the others are behind
those on `newAddr`, where a wake on `newAddr` finds them and one on `addr` does not; and nobody else has
moved. -/
structure Requeued (tr : FutexTrace) (addr count newAddr : Nat) (s : Tasks) : Prop where
  woken : ∀ i, s.sched.threads i = (tr.tasks.sched.threads i).map fun t =>
    if t.id ∈ (tr.waitersOn addr).take count then t.withState .ready else t
  moved : (tr.standing addr newAddr ++ (tr.waitersOn addr).drop count).Sublist
    (s.futexes.queued (FutexTable.hashAddr newAddr))
  gone : newAddr ≠ addr → ∀ tid ∈ tr.waitersOn addr,
    tid ∉ s.futexes.queued (FutexTable.hashAddr addr)
  others : ∀ b, (s.futexes.queued b).filter (fun tid => tid ∉ tr.waitersOn addr) =
    ((tr.bucket b).map (·.1)).filter fun tid => tid ∉ tr.waitersOn addr

def RequeuesExactly (tr : FutexTrace) (addr count newAddr : Nat) : Prop :=
  ∃ s, Tasks.futexRequeue addr count newAddr tr.tasks =
    .ok ((tr.waitersOn addr).take count).length s ∧ Requeued tr addr count newAddr s

namespace FutexTrace.Agrees

open Tasks

variable {tr : FutexTrace} {addr count newAddr : Nat}

/-! ## Where the waiters are -/

theorem queued_eq (h : tr.Agrees) (b : Fin futexBuckets) :
    tr.tasks.futexes.queued b = (tr.bucket b).map (·.1) := by
  obtain ⟨path, held, same⟩ := h.lists b
  rw [held.queued_eq, same]

theorem waitersOn_sublist (tr : FutexTrace) (addr : Nat) :
    (tr.waitersOn addr).Sublist ((tr.bucket (FutexTable.hashAddr addr)).map (·.1)) := by
  refine (List.monotone_filter_right _ fun x here => ?_).map _
  simp only [Bool.and_eq_true, decide_eq_true_eq] at here ⊢
  rw [here.1]

/-- A thread waits in one bucket. -/
theorem bucket_unique (h : tr.Agrees) {b c : Fin futexBuckets} {tid : Nat}
    (in_b : tid ∈ (tr.bucket b).map (·.1)) (in_c : tid ∈ (tr.bucket c).map (·.1)) : b = c := by
  obtain ⟨x, mem_x, rfl⟩ := List.mem_map.mp in_b
  obtain ⟨y, mem_y, same⟩ := List.mem_map.mp in_c
  obtain ⟨line_x, hash_x⟩ := List.mem_filter.mp mem_x
  obtain ⟨line_y, hash_y⟩ := List.mem_filter.mp mem_y
  cases h.unique line_x line_y same.symm
  rw [← of_decide_eq_true hash_x, ← of_decide_eq_true hash_y]

/-- A thread waits on one address. -/
theorem standing_apart (h : tr.Agrees) {tid : Nat} (ne : newAddr ≠ addr)
    (here : tid ∈ tr.waitersOn newAddr) : tid ∉ tr.waitersOn addr := by
  intro there
  simp only [waitersOn, List.mem_map, List.mem_filter, Bool.and_eq_true, decide_eq_true_eq] at here there
  obtain ⟨x, ⟨line_x, at_x, _⟩, rfl⟩ := here
  obtain ⟨y, ⟨line_y, at_y, _⟩, same⟩ := there
  cases h.unique line_y line_x same
  exact ne (at_x.symm.trans at_y)

/-! ## A requeue that does what it should -/

/-- Nobody is to be moved. -/
theorem requeues_zero (h : tr.Agrees) (still : newAddr = addr ∨ tr.waitersOn addr = []) :
    RequeuesExactly tr addr 0 newAddr := by
  refine ⟨tr.tasks, futexWake_zero, fun i => ?_, ?_, fun ne tid mem => ?_, fun b => ?_⟩
  · simp
  · rw [List.drop_zero, h.queued_eq]
    unfold standing
    split_ifs with same
    · rw [List.nil_append, same]
      exact waitersOn_sublist tr addr
    · rw [still.resolve_left same, List.append_nil]
      exact waitersOn_sublist tr newAddr
  · rw [still.resolve_left ne] at mem
    cases mem
  · rw [h.queued_eq]

/-- Everybody is woken. -/
theorem requeues_all (h : tr.Agrees) (takes : TakesBucket tr addr count) :
    RequeuesExactly tr addr count newAddr := by
  obtain ⟨s, ran, threads, queued⟩ := h.exact_of_takes (.inr takes)
  have fits : (tr.waitersOn addr).length ≤ count := by
    refine (waitersOn_sublist tr addr).length_le.trans ?_
    rw [List.length_map]
    exact takes.2
  have all : (tr.waitersOn addr).take count = tr.waitersOn addr := List.take_of_length_le fits
  have queued' : ∀ b, s.futexes.queued b =
      ((tr.bucket b).map (·.1)).filter fun tid => tid ∉ tr.waitersOn addr := by
    intro b
    rw [queued b, all, List.filter_map]
    rfl
  refine ⟨s, ran, threads, ?_, fun ne tid mem here => ?_, fun b => ?_⟩
  · rw [List.drop_eq_nil_of_le fits, List.append_nil, queued']
    unfold standing
    split_ifs with same
    · exact List.nil_sublist _
    · have kept : (tr.waitersOn newAddr).filter (fun tid => tid ∉ tr.waitersOn addr) =
          tr.waitersOn newAddr :=
        List.filter_eq_self.mpr fun tid mem => by simpa using h.standing_apart same mem
      rw [← kept]
      exact (waitersOn_sublist tr newAddr).filter _
  · rw [queued'] at here
    exact absurd mem (by simpa using (List.mem_filter.mp here).2)
  · rw [queued', List.filter_filter]
    simp

/-! ## No other one does -/

/-- Once somebody has been woken, the links of the bucket lead nowhere; the other buckets are as they
were. -/
theorem requeue_drops (h : tr.Agrees) (pos : count ≠ 0)
    (some_wait : tr.bucket (FutexTable.hashAddr addr) ≠ []) {n : Nat} {s : Tasks}
    (ran : futexRequeue addr count newAddr tr.tasks = .ok n s) :
    s.futexes.queued (FutexTable.hashAddr addr) = [] ∧
      ∀ b, b ≠ FutexTable.hashAddr addr → s.futexes.queued b = tr.tasks.futexes.queued b := by
  obtain ⟨path, held, same⟩ := h.lists (FutexTable.hashAddr addr)
  have nonempty : path ≠ [] := by
    rintro rfl
    exact some_wait (List.map_eq_nil_iff.mp same.symm)
  obtain ⟨e, entry, lists, head⟩ := held.somebody nonempty
  have out : futexRequeue addr count newAddr tr.tasks = _ := futexWake_some entry head
  rw [out] at ran
  injection ran with _ state
  rw [← state]
  constructor
  · simp [FutexTable.queued, FutexTable.set, FutexEntry.queued,
      lists.wake_head nonempty (Nat.pos_of_ne_zero pos), FutexEntry.reached, maxFutexWaiters]
  · intro b ne
    simp [FutexTable.queued, FutexTable.set, ne]

theorem takes_of_requeues (h : tr.Agrees) (exactly : RequeuesExactly tr addr count newAddr)
    (pos : count ≠ 0) : TakesBucket tr addr count := by
  by_cases nobody : tr.bucket (FutexTable.hashAddr addr) = []
  · simp [TakesBucket, nobody]
  obtain ⟨s, ran, _, moved, _, others⟩ := exactly
  obtain ⟨dropped, untouched⟩ := h.requeue_drops pos nobody ran
  -- nobody can have been moved
  have rest : (tr.waitersOn addr).drop count = [] := by
    refine List.eq_nil_iff_forall_not_mem.mpr fun tid mem => ?_
    have there := moved.subset (List.mem_append_right _ mem)
    have here := (waitersOn_sublist tr addr).subset (List.mem_of_mem_drop mem)
    by_cases same : FutexTable.hashAddr newAddr = FutexTable.hashAddr addr
    · rw [same, dropped] at there
      cases there
    · rw [untouched _ same, h.queued_eq] at there
      exact same (h.bucket_unique there here)
  have fits := List.drop_eq_nil_iff.mp rest
  -- and nobody else was in the bucket
  have mine : ∀ tid ∈ (tr.bucket (FutexTable.hashAddr addr)).map (·.1), tid ∈ tr.waitersOn addr := by
    have left := others (FutexTable.hashAddr addr)
    rw [dropped, List.filter_nil] at left
    intro tid mem
    simpa using List.filter_eq_nil_iff.mp left.symm tid mem
  constructor
  · intro x mem
    have waits := mine x.1 (List.mem_map_of_mem mem)
    simp only [waitersOn, List.mem_map, List.mem_filter, Bool.and_eq_true, decide_eq_true_eq] at waits
    obtain ⟨y, ⟨mem_line, on, blocked⟩, same_id⟩ := waits
    cases h.unique mem_line (List.mem_filter.mp mem).1 same_id
    exact ⟨on, blocked⟩
  · have inside := ((h.bucket_once (FutexTable.hashAddr addr)).subperm mine).length_le
    rw [List.length_map] at inside
    exact inside.trans fits

theorem still_of_requeues (h : tr.Agrees) (exactly : RequeuesExactly tr addr 0 newAddr) :
    newAddr = addr ∨ tr.waitersOn addr = [] := by
  obtain ⟨s, ran, _, _, gone, _⟩ := exactly
  have out : futexRequeue addr 0 newAddr tr.tasks = .ok 0 tr.tasks := futexWake_zero
  rw [out] at ran
  cases ran
  refine or_iff_not_imp_left.mpr fun ne => List.eq_nil_iff_forall_not_mem.mpr fun tid mem => ?_
  refine gone ne tid mem ?_
  rw [h.queued_eq]
  exact (waitersOn_sublist tr addr).subset mem

end FutexTrace.Agrees

/-- As long as no wake has stopped in the middle of a bucket, a requeue does what it is for when it wakes
everybody in the bucket and they all wait on `addr`, or when it is to wake nobody and nobody has to move;
otherwise it does not. -/
theorem futex_requeue_exact_iff (tr : FutexTrace) (addr count newAddr : Nat)
    (run : TaskOp.futexSystem.Run (fun tr op => op.Whole tr) ⟨Tasks.boot, []⟩ tr) :
    RequeuesExactly tr addr count newAddr ↔
      TakesBucket tr addr count ∨ (count = 0 ∧ (newAddr = addr ∨ tr.waitersOn addr = [])) := by
  have agrees := FutexTrace.Agrees.of_run run
  constructor
  · intro exactly
    by_cases zero : count = 0
    · subst zero
      exact .inr ⟨rfl, agrees.still_of_requeues exactly⟩
    · exact .inl (agrees.takes_of_requeues exactly zero)
  · rintro (takes | ⟨rfl, still⟩)
    · exact agrees.requeues_all takes
    · exact agrees.requeues_zero still

/-- Two threads wait, and both are woken. -/
theorem futex_requeue_exact_two_sleepers :
    RequeuesExactly (TaskOp.futexSystem.after ⟨Tasks.boot, []⟩ Tasks.twoSleepers) 64 2 128 := by
  refine (futex_requeue_exact_iff _ 64 2 128 FutexTrace.twoSleepers_run).mpr (.inl ⟨?_, by decide⟩)
  decide

/-- Of two threads one is woken, and the other is on neither address. -/
theorem requeue_loses_waiter :
    ¬ ∀ tr addr count newAddr, TaskOp.futexSystem.Run (fun _ _ => True) ⟨Tasks.boot, []⟩ tr →
      RequeuesExactly tr addr count newAddr := by
  intro claim
  have exactly := claim _ 64 1 128 (FutexTrace.twoSleepers_run.mono fun _ _ _ => trivial)
  have agrees := FutexTrace.Agrees.of_run FutexTrace.twoSleepers_run
  have fits := (agrees.takes_of_requeues exactly (by decide)).2
  revert fits
  decide

end CapsuleOS
