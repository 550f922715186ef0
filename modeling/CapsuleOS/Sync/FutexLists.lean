import CapsuleOS.Lib.Links
import CapsuleOS.Sync.Futex

/-!
# The waiters of a bucket

`Lists` describes a bucket whose links are in order by the cells of its list and the threads in them.
Adding and removing a thread keep it, and so does a wake that takes the whole list. A wake that stops
earlier drops the rest of the list.
-/
namespace CapsuleOS

open Lib

/-- The cells of a bucket, from the head on, with the thread in each. -/
abbrev FutexPath := List (Fin maxFutexWaiters × Nat)

namespace FutexEntry

/-- The waiters between two links. -/
abbrev Seg (e : FutexEntry) (l : Option (Fin maxFutexWaiters)) (path : FutexPath)
    (l' : Option (Fin maxFutexWaiters)) : Prop :=
  Links.Seg FutexWaiter.threadId FutexWaiter.next e.waiters l path l'

structure Lists (e : FutexEntry) (path : FutexPath) : Prop where
  seg : e.Seg e.head path none
  tail_eq : e.tail = path.getLast?.map (·.1)
  count : e.waiterCount = path.length
  nodup : (path.map (·.1)).Nodup
  free : ∀ i, i ∉ path.map (·.1) → e.waiters i = none

/-- The threads that following the links from the head reaches. -/
def reached (waiters : Fin maxFutexWaiters → Option FutexWaiter) :
    Nat → Option (Fin maxFutexWaiters) → List Nat
  | 0, _ => []
  | _ + 1, none => []
  | fuel + 1, some i =>
    match waiters i with
    | none => []
    | some w => w.threadId :: reached waiters fuel w.next

def queued (e : FutexEntry) : List Nat := reached e.waiters maxFutexWaiters e.head

variable {e : FutexEntry} {path p q : FutexPath} {tid fuel : Nat} {i t : Fin maxFutexWaiters}
  {a : Nat} {l prev : Option (Fin maxFutexWaiters)}

theorem new_lists (addr : Nat) : (FutexEntry.new addr).Lists [] where
  seg := rfl
  tail_eq := rfl
  count := rfl
  nodup := List.nodup_nil
  free _ _ := rfl

theorem Lists.length_le (h : e.Lists path) : path.length ≤ maxFutexWaiters := by
  have fits := h.nodup.length_le_card
  rwa [List.length_map, Fintype.card_fin] at fits

theorem reached_eq (seg : e.Seg l path none) (enough : path.length ≤ fuel) :
    reached e.waiters fuel l = path.map (·.2) := by
  induction path generalizing l fuel with
  | nil =>
    cases seg
    cases fuel <;> rfl
  | cons x path ih =>
    obtain ⟨rfl, w, cell, val, rest⟩ := seg
    cases fuel with
    | zero => simp at enough
    | succ fuel =>
      simp only [reached, cell, List.map_cons, val]
      rw [ih rest (by simpa using enough)]

theorem Lists.queued_eq (h : e.Lists path) : e.queued = path.map (·.2) :=
  reached_eq h.seg h.length_le

/-! ## Adding -/

theorem Lists.firstFree (h : e.Lists path) (room : path.length < maxFutexWaiters) :
    ∃ i, e.firstFree = some i ∧ i ∉ path.map (·.1) := by
  cases found : e.firstFree with
  | some i =>
    have empty : e.waiters i = none := by simpa using List.find?_some found
    refine ⟨i, rfl, fun mem => ?_⟩
    obtain ⟨⟨j, a⟩, mem_path, rfl⟩ := List.mem_map.mp mem
    obtain ⟨p, q, rfl⟩ := List.append_of_mem mem_path
    obtain ⟨_, _, _, w, cell, _⟩ := Links.seg_append.mp h.seg
    rw [cell] at empty
    cases empty
  | none =>
    -- every cell is taken, so the list has as many entries as there are cells
    have all : ∀ i, i ∈ path.map (·.1) := by
      intro i
      by_contra away
      have taken := List.find?_eq_none.mp found i (List.mem_finRange i)
      simp [h.free i away] at taken
    have whole := ((List.nodup_finRange maxFutexWaiters).subperm fun i _ => all i).length_le
    rw [List.length_finRange, List.length_map] at whole
    omega

/-- A cell behind the last one. -/
theorem Lists.append (h : e.Lists (p ++ [(t, a)])) (away : i ∉ (p ++ [(t, a)]).map (·.1))
    {w : FutexWaiter} (cell : e.waiters t = some w) :
    Lists { (e.setWaiter i (some ⟨tid, none⟩)).link t (some i) with
      waiterCount := e.waiterCount + 1, tail := some i } (p ++ [(t, a), (i, tid)]) where
  seg := by
    obtain ⟨first, w', cell', val, _⟩ := h.seg.last
    rw [cell] at cell'
    cases cell'
    have ne : t ≠ i := by
      rintro rfl
      simp at away
    have apart : t ∉ p.map (·.1) := by
      have nodup := h.nodup
      rw [List.map_append, List.nodup_append] at nodup
      exact fun mem => nodup.2.2 t mem t (by simp) rfl
    refine Links.seg_append.mpr ⟨some t, ?_, rfl, { w with next := some i }, ?_, val, rfl, ⟨tid, none⟩, ?_,
      rfl, rfl⟩
    · exact (first.update (fun mem => away (by simp at mem ⊢; tauto)) _).update apart _
    · simp [FutexEntry.link, setWaiter, ne, cell]
    · simp [FutexEntry.link, setWaiter, ne.symm]
  tail_eq := by simp
  count := by
    rw [h.count]
    simp
  nodup := by
    have nodup := h.nodup
    simp only [List.map_append, List.map_cons, List.map_nil] at nodup away ⊢
    rw [show p.map (·.1) ++ [t, i] = (p.map (·.1) ++ [t]) ++ [i] by simp]
    exact List.nodup_append.mpr ⟨nodup, by simp, by grind⟩
  free := by
    intro j mem
    have out : j ∉ (p ++ [(t, a)]).map (·.1) := by
      intro inside
      apply mem
      simp only [List.map_append, List.map_cons, List.map_nil, List.mem_append, List.mem_cons] at inside ⊢
      tauto
    have ne : j ≠ i ∧ j ≠ t := by
      constructor <;> rintro rfl <;> simp at mem
    simp [FutexEntry.link, setWaiter, ne, h.free j out]

theorem Lists.addWaiter (h : e.Lists path) (room : path.length < maxFutexWaiters) (tid : Nat) :
    ∃ i e', e.addWaiter tid = some e' ∧ e'.Lists (path ++ [(i, tid)]) := by
  obtain ⟨i, first, away⟩ := h.firstFree room
  have below : ¬ e.waiterCount ≥ maxFutexWaiters := by
    rw [h.count]
    omega
  have head := h.seg.start
  have tail := h.tail_eq
  rcases List.eq_nil_or_concat' path with rfl | ⟨p, ⟨t, a⟩, rfl⟩
  · refine ⟨i, { e.setWaiter i (some ⟨tid, none⟩) with
      waiterCount := e.waiterCount + 1, head := some i, tail := some i }, ?_, ?_⟩
    · simp only [FutexEntry.addWaiter, below, if_false, first]
      simp [setWaiter, head]
    · refine ⟨⟨rfl, ⟨tid, none⟩, by simp [setWaiter], rfl, rfl⟩, rfl, by simp [h.count], by simp, ?_⟩
      intro j mem
      have ne : j ≠ i := by
        rintro rfl
        simp at mem
      simp [setWaiter, ne, h.free j]
  · obtain ⟨_, w, cell, _, _⟩ := h.seg.last
    refine ⟨i, _, ?_, by simpa using h.append away cell⟩
    obtain ⟨first_cell, starts⟩ : ∃ j, e.head = some j := by
      rw [head]
      cases p <;> simp
    simp only [List.getLast?_append, List.getLast?_singleton, Option.some_or, Option.map_some] at tail
    simp only [FutexEntry.addWaiter, below, if_false, first]
    simp [setWaiter, FutexEntry.link, starts, tail]

theorem Lists.addWaiter_full (h : e.Lists path) (full : ¬ path.length < maxFutexWaiters) (tid : Nat) :
    e.addWaiter tid = none := by
  have full' : e.waiterCount ≥ maxFutexWaiters := by
    rw [h.count]
    omega
  simp [FutexEntry.addWaiter, full']

/-! ## Removing -/

/-- The search passes the cells of other threads. -/
theorem removeLoop_walk (seg : e.Seg l (p ++ q) none) (others : ∀ x ∈ p, x.2 ≠ tid) :
    removeLoop tid (p.length + fuel) prev l e =
      removeLoop tid fuel ((p.getLast?.map (·.1)).or prev) (q.head?.map (·.1)) e := by
  induction p generalizing l prev with
  | nil =>
    rw [Links.Seg.start seg]
    simp
  | cons x p ih =>
    obtain ⟨i, a⟩ := x
    obtain ⟨rfl, w, cell, rfl, rest⟩ := seg
    have other : w.threadId ≠ tid := others (i, w.threadId) List.mem_cons_self
    rw [List.length_cons, show p.length + 1 + fuel = (p.length + fuel) + 1 by omega]
    simp only [removeLoop, cell, if_neg other]
    rw [ih rest fun x mem => others x (List.mem_cons_of_mem _ mem)]
    congr 1
    rcases List.eq_nil_or_concat' p with rfl | ⟨p, y, rfl⟩
    · rfl
    · rw [← List.cons_append, List.getLast?_concat, List.getLast?_concat]
      rfl

theorem Lists.removeWaiter_absent (h : e.Lists path) (others : ∀ x ∈ path, x.2 ≠ tid) :
    e.removeWaiter tid = some e := by
  have fits := h.length_le
  have seg := h.seg
  rw [← List.append_nil path] at seg
  unfold FutexEntry.removeWaiter
  rw [show maxFutexWaiters + 1 = path.length + (maxFutexWaiters + 1 - path.length) by omega,
    removeLoop_walk seg others]
  simp [removeLoop]

/-- The tail after a cell has left the list. -/
theorem tail_erase (nodup : ((p ++ (i, a) :: q).map (·.1)).Nodup) :
    (if (p ++ (i, a) :: q).getLast?.map (·.1) = some i then p.getLast?.map (·.1)
      else (p ++ (i, a) :: q).getLast?.map (·.1)) = (p ++ q).getLast?.map (·.1) := by
  rcases List.eq_nil_or_concat' q with rfl | ⟨q, ⟨j, b⟩, rfl⟩
  · simp
  · have ne : j ≠ i := by
      rintro rfl
      simp [List.nodup_append] at nodup
    have last : (p ++ (i, a) :: (q ++ [(j, b)])).getLast? = some (j, b) := by
      rw [← List.cons_append, ← List.append_assoc, List.getLast?_concat]
    rw [last, ← List.append_assoc, List.getLast?_concat]
    simp [ne]

theorem Lists.removeWaiter (h : e.Lists (p ++ (i, tid) :: q)) (others : ∀ x ∈ p, x.2 ≠ tid) :
    ∃ e', e.removeWaiter tid = some e' ∧ e'.Lists (p ++ q) := by
  have fits := h.length_le
  rw [List.length_append, List.length_cons] at fits
  have walk : e.removeWaiter tid = removeLoop tid (maxFutexWaiters - p.length + 1)
      (p.getLast?.map (·.1)) (some i) e := by
    unfold FutexEntry.removeWaiter
    rw [show maxFutexWaiters + 1 = p.length + (maxFutexWaiters - p.length + 1) by omega,
      removeLoop_walk h.seg others]
    simp
  obtain ⟨link, first, rfl, w, cell, mine, rest⟩ := Links.seg_append.mp h.seg
  have nodup := h.nodup
  have away : i ∉ p.map (·.1) ∧ i ∉ q.map (·.1) := by
    simp [List.nodup_append] at nodup
    grind
  have len : wsub e.waiterCount 1 = (p ++ q).length := by
    have small : maxFutexWaiters < 2 ^ 64 := by decide
    rw [h.count, wsub_eq (by simp; omega) (by simp; omega)]
    simp
  have tail := tail_erase nodup
  rw [← h.tail_eq] at tail
  have fewer : ((p ++ q).map (·.1)).Nodup := by
    refine nodup.sublist (List.Sublist.map _ ?_)
    exact (List.Sublist.refl p).append (List.sublist_cons_self _ _)
  have rest' := rest.update away.2 none
  rcases List.eq_nil_or_concat' p with rfl | ⟨p, ⟨t, b⟩, rfl⟩
  · refine ⟨{ e.setWaiter i none with
      head := w.next, tail := if e.tail = some i then none else e.tail,
      waiterCount := wsub e.waiterCount 1 }, ?_, rest', tail, len, fewer, ?_⟩
    · rw [walk]
      simp only [removeLoop, cell, mine, if_true, List.getLast?_nil, Option.map_none]
      by_cases last : e.tail = some i <;> simp [last, setWaiter]
    · intro j out
      by_cases here : j = i
      · simp [setWaiter, here]
      · simp only [setWaiter, Function.update_of_ne here]
        apply h.free
        simp only [List.nil_append, List.map_cons, List.mem_cons, not_or]
        exact ⟨here, out⟩
  · obtain ⟨before, v, cell_t, val_t, to_i⟩ := first.last
    have ne : t ≠ i := by
      rintro rfl
      simp at away
    refine ⟨{ (e.link t w.next).setWaiter i none with
      tail := if e.tail = some i then some t else e.tail,
      waiterCount := wsub e.waiterCount 1 }, ?_, ?_, ?_, len, fewer, ?_⟩
    · rw [walk]
      simp only [removeLoop, cell, mine, if_true, List.getLast?_concat, Option.map_some]
      by_cases last : e.tail = some i <;> simp [last, setWaiter, FutexEntry.link]
    · have apart : t ∉ p.map (·.1) ∧ t ∉ q.map (·.1) := by
        simp only [List.map_append, List.map_cons, List.map_nil, List.nodup_append] at fewer
        grind
      have out : i ∉ p.map (·.1) := fun mem => away.1 (by simp [mem])
      refine Links.seg_append.mpr ⟨w.next, Links.seg_append.mpr ⟨some t, ?_, ?_⟩, ?_⟩
      · exact (before.update apart.1 _).update out none
      · refine Links.seg_single.mpr ⟨rfl, { v with next := w.next }, ?_, val_t, rfl⟩
        simp [FutexEntry.link, setWaiter, ne, cell_t]
      · exact (rest.update apart.2 _).update away.2 none
    · simpa using tail
    · intro j out
      by_cases here : j = i
      · simp [setWaiter, here]
      · have ne_t : j ≠ t := by
          rintro rfl
          simp at out
        simp only [FutexEntry.link, setWaiter, Function.update_of_ne here, Function.update_of_ne ne_t]
        apply h.free
        intro mem
        rw [List.map_append, List.map_cons, List.mem_append, List.mem_cons] at mem
        rw [List.map_append, List.mem_append] at out
        rcases mem with before | now | behind
        · exact out (Or.inl before)
        · exact here now
        · exact out (Or.inr behind)

/-- The first node of the thread leaves the list. -/
theorem Lists.remove_first (h : e.Lists path) (tid : Nat) :
    ∃ e' path', e.removeWaiter tid = some e' ∧ e'.Lists path' ∧
      path'.map (·.2) = (path.map (·.2)).erase tid := by
  by_cases waits : tid ∈ path.map (·.2)
  · obtain ⟨first, rest, away, split, erased⟩ := List.exists_erase_eq waits
    obtain ⟨p, behind, rfl, rfl, here⟩ := List.map_eq_append_iff.mp split
    obtain ⟨⟨i, a⟩, q, rfl, rfl, rfl⟩ := List.map_eq_cons_iff.mp here
    have others : ∀ x ∈ p, x.2 ≠ a := fun x mem eq => away (List.mem_map.mpr ⟨x, mem, eq⟩)
    obtain ⟨e', ran, lists⟩ := h.removeWaiter others
    exact ⟨e', p ++ q, ran, lists, by rw [erased, List.map_append]⟩
  · have others : ∀ x ∈ path, x.2 ≠ tid := fun x mem eq => waits (List.mem_map.mpr ⟨x, mem, eq⟩)
    exact ⟨e, path, h.removeWaiter_absent others, h, (List.erase_of_not_mem waits).symm⟩

/-- Where every thread waits at most once, all its places go. -/
theorem Lists.remove (h : e.Lists path) (once : (path.map (·.2)).Nodup) (tid : Nat) :
    ∃ e' path', e.removeWaiter tid = some e' ∧ e'.Lists path' ∧
      path'.map (·.2) = (path.map (·.2)).filter (· ≠ tid) := by
  obtain ⟨e', path', ran, lists, rest⟩ := h.remove_first tid
  refine ⟨e', path', ran, lists, ?_⟩
  rw [rest, once.erase_eq_filter]
  exact List.filter_congr fun a _ => by simp [bne, beq_eq_decide]

/-! ## Waking -/

theorem wakeLoop_all (seg : e.Seg l path none) (nodup : (path.map (·.1)).Nodup)
    (enough : path.length ≤ fuel) :
    ∃ e', wakeLoop fuel l e = (e', path.map (·.2)) ∧
      ∀ i, e'.waiters i = if i ∈ path.map (·.1) then none else e.waiters i := by
  induction path generalizing l fuel e with
  | nil =>
    cases seg
    refine ⟨e, ?_, fun _ => by simp⟩
    cases fuel <;> rfl
  | cons x path ih =>
    obtain ⟨i, a⟩ := x
    obtain ⟨rfl, w, cell, rfl, rest⟩ := seg
    rw [List.map_cons, List.nodup_cons] at nodup
    obtain ⟨fuel, rfl⟩ : ∃ k, fuel = k + 1 := ⟨fuel - 1, by simp at enough; omega⟩
    have rest' : (e.setWaiter i none).Seg w.next path none := rest.update nodup.1 none
    obtain ⟨e', ran, cells⟩ := ih rest' nodup.2 (by simpa using enough)
    refine ⟨e', ?_, fun j => ?_⟩
    · simp [wakeLoop, cell, ran]
    · rw [cells j]
      rw [List.map_cons]
      by_cases here : j = i <;> simp only [setWaiter, here, List.mem_cons, Function.update_self,
        Function.update_of_ne, ne_eq, not_false_eq_true, false_or, true_or, if_true, ite_self]

/-- A wake that takes the whole list empties the bucket. -/
theorem Lists.wake_all (h : e.Lists path) (some_wait : path ≠ []) {count : Nat}
    (enough : path.length ≤ count) :
    ∃ e', e.wakeFromEntry count = (e', path.map (·.2)) ∧ e'.Lists [] := by
  have fits := h.length_le
  obtain ⟨e', ran, cells⟩ :=
    wakeLoop_all h.seg h.nodup (show path.length ≤ min count (maxFutexWaiters + 1) by omega)
  refine ⟨{ e' with head := none, tail := none, waiterCount := 0 }, ?_, rfl, rfl, rfl,
    List.nodup_nil, fun i _ => ?_⟩
  · simp [wakeFromEntry, ran, some_wait]
  · change e'.waiters i = none
    rw [cells i]
    split_ifs with mem
    · rfl
    · exact h.free i mem

@[simp] theorem wake_zero (e : FutexEntry) : e.wakeFromEntry 0 = (e, []) := by
  simp [wakeFromEntry, wakeLoop]

/-- After a wake of anybody the links lead nowhere. -/
theorem Lists.wake_head (h : e.Lists path) (some_wait : path ≠ []) {count : Nat} (pos : 0 < count) :
    (e.wakeFromEntry count).1.head = none := by
  obtain ⟨⟨i, a⟩, path, rfl⟩ := List.exists_cons_of_ne_nil some_wait
  obtain ⟨start, w, cell, _, _⟩ := h.seg
  obtain ⟨k, eq⟩ : ∃ k, min count (maxFutexWaiters + 1) = k + 1 :=
    ⟨min count (maxFutexWaiters + 1) - 1, by omega⟩
  simp [wakeFromEntry, eq, start, wakeLoop, cell]

end FutexEntry

end CapsuleOS
