import CapsuleOS.Ipc.PairFrame

/-!
# Delivery over a pair

Runs of reads and writes on the two endpoints of a pair, by any threads and in any order, while the
pair stays open. Each endpoint keeps two ghost logs: the writes and the reads it has accepted, in
order, with what they returned once they have.

`Line k side p mine theirs` is the invariant for one side of a transfer: the calls logged on `p` are
paired by position with those of the other side; the surplus is what is queued, in order; and
everything a paired call will return is already in its thread.
-/
namespace CapsuleOS

open Lib

namespace Side

/-- The call a thread of this side waits in. -/
def Awaits (side : Side) (p : Nat) (c : Call) : Prop :=
  match side with
  | .send => c = .write p
  | .recv => ∃ hs, c = .read p hs

/-- The buffer a call of this side returns. -/
def buffer (side : Side) (t : Thread) : List UInt8 :=
  match side with
  | .send => []
  | .recv => t.ipcBuf

/-- What a call of this side returns when its bytes meet those of the other side: the length moved
and, for a read, its buffer with the message in front. -/
def answer (side : Side) (mine theirs : List UInt8) : Nat × List UInt8 :=
  match side with
  | .send => (min mine.length theirs.length, [])
  | .recv => (min theirs.length mine.length,
      splice mine 0 (theirs.take (min theirs.length mine.length)))

end Side

/-- An accepted call: its message or buffer and, once it has returned, the answer. -/
structure Entry where
  tid : Nat
  bytes : List UInt8
  result : Option (Nat × List UInt8)
  deriving DecidableEq

/-- The outstanding call of a thread returns. -/
def Entry.finish (tid : Nat) (answer : Nat × List UInt8) (e : Entry) : Entry :=
  if e.tid = tid ∧ e.result = none then { e with result := some answer } else e

namespace Entry

variable {tid : Nat} {ans : Nat × List UInt8} {e : Entry}

theorem finish_tid (tid : Nat) (ans : Nat × List UInt8) (e : Entry) :
    (finish tid ans e).tid = e.tid := by
  unfold finish
  split_ifs <;> rfl

theorem finish_bytes : (finish tid ans e).bytes = e.bytes := by
  unfold finish
  split_ifs <;> rfl

theorem finish_of_ne (ne : e.tid ≠ tid) : finish tid ans e = e := if_neg fun own => ne own.1

theorem finish_none (h : (finish tid ans e).result = none) : e.result = none := by
  unfold finish at h
  split_ifs at h with own
  exact h

end Entry

/-- What a call hands to its caller, as far as the message goes. -/
def CallResult.answer : CallResult → Option (Nat × List UInt8)
  | .read n buf _ => some (n, buf)
  | .wrote n => some (n, [])
  | .blocked => none

/-- The kernel with the logs of its endpoints. -/
structure Exchange where
  kernel : Kernel
  log : Side → Nat → List Entry

namespace Exchange

def setLog (s : Exchange) (side : Side) (p : Nat) (es : List Entry) : Exchange :=
  { s with log := fun side' p' => if side' = side ∧ p' = p then es else s.log side' p' }

def accept (s : Exchange) (side : Side) (p : Nat) (e : Entry) : Exchange :=
  s.setLog side p (s.log side p ++ [e])

def finish (s : Exchange) (side : Side) (p tid : Nat) (answer : Nat × List UInt8) : Exchange :=
  s.setLog side p ((s.log side p).map (Entry.finish tid answer))

/-- The call of each side. -/
def invoke (side : Side) (tid p : Nat) (data : List UInt8) (hs : List Nat) : KernelM CallResult :=
  match side with
  | .send => Kernel.channelWrite tid p data hs
  | .recv => Kernel.channelRead tid p data hs

/-- One step: a thread that is in no call makes one, or a woken thread goes on with its call. -/
inductive Step (a b : Nat) : Exchange → Exchange → Prop where
  | call {s : Exchange} {side : Side} {tid p : Nat} {data : List UInt8} {hs : List Nat} {t : Thread}
      {r : CallResult} {k' : Kernel} (at_pair : p = a ∨ p = b)
      (ht : s.kernel.thread? tid = some t) (idle : t.call = none)
      (ran : invoke side tid p data hs s.kernel = .ok r k') :
      Step a b s ({ s with kernel := k' }.accept side p ⟨tid, data, r.answer⟩)
  | fail {s : Exchange} {side : Side} {tid p : Nat} {data : List UInt8} {hs : List Nat} {t : Thread}
      {e : Status} {k' : Kernel} (at_pair : p = a ∨ p = b)
      (ht : s.kernel.thread? tid = some t) (idle : t.call = none)
      (ran : invoke side tid p data hs s.kernel = .err e k') :
      Step a b s { s with kernel := k' }
  | resume {s : Exchange} {side : Side} {tid p : Nat} {t : Thread} {c : Call} {r : CallResult}
      {k' : Kernel} {answer : Nat × List UInt8} (at_pair : p = a ∨ p = b)
      (ht : s.kernel.thread? tid = some t) (call : t.call = some c) (side_call : side.Awaits p c)
      (woken : t.state = .ready) (ran : Kernel.resume tid s.kernel = .ok r k')
      (hr : r.answer = some answer) :
      Step a b s ({ s with kernel := k' }.finish side p tid answer)

end Exchange

namespace Kernel

/-- The two endpoints are live, open, and peers of each other. -/
structure Linked (k : Kernel) (a b : Nat) : Prop where
  ne : a ≠ b
  left : ∃ c, k.chans a = some c ∧ c.state ≠ .closed ∧ c.peer = some b
  right : ∃ c, k.chans b = some c ∧ c.state ≠ .closed ∧ c.peer = some a

theorem Linked.symm {k : Kernel} {a b : Nat} (h : k.Linked a b) : k.Linked b a :=
  ⟨h.ne.symm, h.right, h.left⟩

theorem Linked.openEnds {k : Kernel} {a b : Nat} (h : k.Linked a b) : k.OpenEnd a ∧ k.OpenEnd b := by
  obtain ⟨c, hc, nc, _⟩ := h.left
  obtain ⟨d, hd, nd, _⟩ := h.right
  exact ⟨⟨c, hc, nc⟩, ⟨d, hd, nd⟩⟩

/-- The call is queued: its thread sleeps and its bytes are as they were passed. -/
def Pending (k : Kernel) (side : Side) (p : Nat) (e : Entry) : Prop :=
  e.result = none ∧ ∃ t, k.thread? e.tid = some t ∧ t.state = .blocked ∧
    (∃ c, t.call = some c ∧ side.Awaits p c) ∧ t.ipcBuf = e.bytes

/-- The call has returned `answer`, or its thread is awake and will. -/
def Settled (k : Kernel) (side : Side) (p : Nat) (answer : Nat × List UInt8) (e : Entry) : Prop :=
  e.result = some answer ∨
    (e.result = none ∧ ∃ t, k.thread? e.tid = some t ∧ t.state = .ready ∧
      (∃ c, t.call = some c ∧ side.Awaits p c) ∧ (t.ipcActualLen, side.buffer t) = answer)

structure Line (k : Kernel) (side : Side) (p : Nat) (mine theirs : List Entry) : Prop where
  queue : ∃ c, k.chans p = some c ∧
    (side.queue c).Packed ((mine.drop theirs.length).map Entry.tid)
  waiting : ∀ e ∈ mine.drop theirs.length, Pending k side p e
  settled : ∀ (i : Nat) e f, mine[i]? = some e → theirs[i]? = some f →
    Settled k side p (side.answer e.bytes f.bytes) e
  unique : mine.Pairwise fun e f => e.result = none → f.result = none → e.tid ≠ f.tid
  calls : ∀ tid t c, k.thread? tid = some t → t.call = some c → side.Awaits p c →
    ∃ e ∈ mine, e.tid = tid ∧ e.result = none

/-! ## Frames -/

section Frames

variable {k k' : Kernel} {a b p who : Nat} {side : Side} {mine theirs : List Entry}

/-- Only the thread `who` has changed, as far as calls on the pair go. -/
structure Touched (a b : Nat) (k k' : Kernel) (who : Nat) : Prop where
  elsewhere : Elsewhere a b k'
  views : ∀ tid t, tid ≠ who → k.thread? tid = some t → AtPair a b t →
    ∃ t', k'.thread? tid = some t' ∧ SameView t t'
  calls : ∀ tid, tid ≠ who → (k'.thread? tid).map Thread.call = (k.thread? tid).map Thread.call

theorem Touched.call_back (h : Touched a b k k' who) {tid : Nat} {t' : Thread} (ne : tid ≠ who)
    (ht' : k'.thread? tid = some t') : ∃ t, k.thread? tid = some t ∧ t'.call = t.call := by
  have same := h.calls tid ne
  rw [ht'] at same
  cases hk : k.thread? tid with
  | none => rw [hk] at same; cases same
  | some t => rw [hk] at same; exact ⟨t, rfl, Option.some.inj same⟩

theorem atPair_of_side {t : Thread} {c : Call} (hp : p = a ∨ p = b)
    (hc : t.call = some c) (call : side.Awaits p c) : AtPair a b t := by
  intro c' hc'
  rw [hc] at hc'
  cases hc'
  cases side with
  | send => cases call; exact hp
  | recv => obtain ⟨hs, rfl⟩ := call; exact hp

theorem Pending.keep {e : Entry} (h : Pending k side p e) (hp : p = a ∨ p = b)
    (touched : Touched a b k k' who) (ne : e.tid ≠ who) : Pending k' side p e := by
  obtain ⟨res, t, ht, st, ⟨c, hc, call⟩, buf⟩ := h
  obtain ⟨t', ht', view⟩ := touched.views _ t ne ht (atPair_of_side hp hc call)
  exact ⟨res, t', ht', view.state_eq.trans st, ⟨c, view.call_eq.trans hc, call⟩,
    view.buf_eq.trans buf⟩

theorem Settled.keep {e : Entry} {answer : Nat × List UInt8} (h : Settled k side p answer e)
    (hp : p = a ∨ p = b) (touched : Touched a b k k' who)
    (ne : e.result = none → e.tid ≠ who) : Settled k' side p answer e := by
  rcases h with done | ⟨res, t, ht, st, ⟨c, hc, call⟩, ans⟩
  · exact Or.inl done
  · obtain ⟨t', ht', view⟩ := touched.views _ t (ne res) ht (atPair_of_side hp hc call)
    refine Or.inr ⟨res, t', ht', view.state_eq.trans st, ⟨c, view.call_eq.trans hc, call⟩, ?_⟩
    have buffer : side.buffer t' = side.buffer t := by
      cases side with
      | send => rfl
      | recv => exact view.buf_eq
    rw [view.len_eq, buffer, ans]

/-- The thread of an outstanding entry stands in the call of its side. -/
theorem Line.outstanding (h : Line k side p mine theirs) {e : Entry} (he : e ∈ mine)
    (res : e.result = none) :
    ∃ t c, k.thread? e.tid = some t ∧ t.call = some c ∧ side.Awaits p c := by
  obtain ⟨i, hi⟩ := List.getElem?_of_mem he
  by_cases paired : i < theirs.length
  · rcases h.settled i e _ hi (List.getElem?_eq_getElem paired) with
      done | ⟨_, t, ht, _, ⟨c, hc, call⟩, _⟩
    · rw [res] at done; cases done
    · exact ⟨t, c, ht, hc, call⟩
  · have mem : e ∈ mine.drop theirs.length := by
      refine List.mem_of_getElem? (i := i - theirs.length) ?_
      rw [List.getElem?_drop, ← hi]
      congr 1
      omega
    obtain ⟨_, t, ht, _, ⟨c, hc, call⟩, _⟩ := h.waiting e mem
    exact ⟨t, c, ht, hc, call⟩

/-- The thread is in no call of this side on `p`. -/
def Outside (side : Side) (p : Nat) (t : Thread) : Prop := ∀ c, t.call = some c → ¬ side.Awaits p c

theorem Line.outside (h : Line k side p mine theirs) {e : Entry} (he : e ∈ mine)
    (out : ∀ t, k.thread? who = some t → Outside side p t) (res : e.result = none) :
    e.tid ≠ who := by
  obtain ⟨t, c, ht, hc, call⟩ := h.outstanding he res
  rintro rfl
  exact out t ht c hc call

/-- No two outstanding entries are of one thread. -/
theorem Line.unique_of_ne (h : Line k side p mine theirs) {i j : Nat} {e f : Entry}
    (hi : mine[i]? = some e) (hj : mine[j]? = some f) (ne : i ≠ j) (he : e.result = none)
    (hf : f.result = none) : e.tid ≠ f.tid := by
  obtain ⟨bi, rfl⟩ := List.getElem?_eq_some_iff.mp hi
  obtain ⟨bj, rfl⟩ := List.getElem?_eq_some_iff.mp hj
  rcases Nat.lt_or_gt_of_ne ne with lt | gt
  · exact List.pairwise_iff_getElem.mp h.unique i j bi bj lt he hf
  · exact (List.pairwise_iff_getElem.mp h.unique j i bj bi gt hf he).symm

/-- Threads other than `who` are in a call of this side only if they were before. -/
theorem Line.calls_keep (h : Line k side p mine theirs) (touched : Touched a b k k' who) {tid : Nat}
    {t' : Thread} {c : Call} (ne : tid ≠ who) (ht' : k'.thread? tid = some t')
    (hc : t'.call = some c) (call : side.Awaits p c) : ∃ e ∈ mine, e.tid = tid ∧ e.result = none := by
  obtain ⟨t, ht, call_eq⟩ := touched.call_back ne ht'
  exact h.calls tid t c ht (call_eq ▸ hc) call

/-- A step of a thread outside the line, which leaves its queue, keeps it. -/
theorem Line.keep (h : Line k side p mine theirs) (hp : p = a ∨ p = b)
    (touched : Touched a b k k' who)
    (queue : ∀ c, k.chans p = some c → ∃ c', k'.chans p = some c' ∧ side.queue c' = side.queue c)
    (before : ∀ t, k.thread? who = some t → Outside side p t)
    (after : ∀ t, k'.thread? who = some t → Outside side p t) : Line k' side p mine theirs where
  queue := by
    obtain ⟨c, hc, packed⟩ := h.queue
    obtain ⟨c', hc', same⟩ := queue c hc
    exact ⟨c', hc', same ▸ packed⟩
  waiting e he := (h.waiting e he).keep hp touched
    (h.outside (List.mem_of_mem_drop he) before (h.waiting e he).1)
  settled i e f he hf := (h.settled i e f he hf).keep hp touched
    (h.outside (List.mem_of_getElem? he) before)
  unique := h.unique
  calls tid t c ht hc call := by
    by_cases eq : tid = who
    · subst eq
      exact absurd call (after t ht c hc)
    · exact h.calls_keep touched eq ht hc call

end Frames

/-! ## The line takes a step -/

section Steps

variable {k k' : Kernel} {a b p : Nat} {side : Side} {mine theirs : List Entry}

/-- A call that finds the other side waiting is accepted with its answer. -/
theorem Line.accept_paired (h : Line k side p mine theirs) {e f : Entry}
    (hf : theirs[mine.length]? = some f) (done : e.result = some (side.answer e.bytes f.bytes)) :
    Line k side p (mine ++ [e]) theirs where
  queue := by
    have lt := (List.getElem?_eq_some_iff.mp hf).1
    obtain ⟨c, hc, packed⟩ := h.queue
    rw [List.drop_eq_nil_of_le (by omega)] at packed
    exact ⟨c, hc, by rw [List.drop_eq_nil_of_le (by simp; omega)]; exact packed⟩
  waiting e' he' := by
    have lt := (List.getElem?_eq_some_iff.mp hf).1
    rw [List.drop_eq_nil_of_le (by simp; omega)] at he'
    cases he'
  settled i e' f' he' hf' := by
    rw [List.getElem?_append] at he'
    split_ifs at he' with lt
    · exact h.settled i e' f' he' hf'
    · have eq : i = mine.length := by
        have := (List.getElem?_eq_some_iff.mp he').1
        simp at this
        omega
      subst eq
      rw [hf] at hf'
      cases hf'
      have : e = e' := by simpa using he'
      exact this ▸ Or.inl done
  unique := by
    refine List.pairwise_append.mpr ⟨h.unique, List.pairwise_singleton _ _, ?_⟩
    intro e₁ _ e₂ he₂ _ none₂
    rw [List.mem_singleton.mp he₂, done] at none₂
    cases none₂
  calls tid t c ht hc call := by
    obtain ⟨e', he', same⟩ := h.calls tid t c ht hc call
    exact ⟨e', by simp [he'], same⟩

/-- The other side serves the thread that has waited longest. -/
theorem Line.served (h : Line k side p mine theirs) (hp : p = a ∨ p = b) {e f : Entry}
    (he : mine[theirs.length]? = some e) (touched : Touched a b k k' e.tid)
    (queue : ∃ c, k'.chans p = some c ∧
      (side.queue c).Packed ((mine.drop (theirs.length + 1)).map Entry.tid))
    (settled : Settled k' side p (side.answer e.bytes f.bytes) e) :
    Line k' side p mine (theirs ++ [f]) := by
  have none_res : e.result = none := by
    refine (h.waiting e (List.mem_of_getElem? (i := 0) ?_)).1
    rw [List.getElem?_drop, ← he]
    rfl
  refine ⟨by simpa using queue, ?_, ?_, h.unique, ?_⟩
  · intro e' he'
    obtain ⟨j, hj⟩ := List.getElem?_of_mem he'
    simp only [List.length_append, List.length_singleton, List.getElem?_drop] at hj
    have mem : e' ∈ mine.drop theirs.length := by
      refine List.mem_of_getElem? (i := j + 1) ?_
      rw [List.getElem?_drop, ← hj]
      congr 1
      omega
    exact (h.waiting e' mem).keep hp touched
      (h.unique_of_ne hj he (by omega) (h.waiting e' mem).1 none_res)
  · intro i e' f' he' hf'
    rw [List.getElem?_append] at hf'
    split_ifs at hf' with lt
    · exact (h.settled i e' f' he' hf').keep hp touched
        fun res => h.unique_of_ne he' he (by omega) res none_res
    · have eq : i = theirs.length := by
        have := (List.getElem?_eq_some_iff.mp hf').1
        simp at this
        omega
      subst eq
      rw [he] at he'
      cases he'
      have : f = f' := by simpa using hf'
      exact this ▸ settled
  · intro tid t c ht hc call
    by_cases eq : tid = e.tid
    · exact ⟨e, List.mem_of_getElem? he, eq.symm, none_res⟩
    · exact h.calls_keep touched eq ht hc call

/-- A call that finds nobody waits. -/
theorem Line.accept_pending (h : Line k side p mine theirs) (hp : p = a ∨ p = b) {e : Entry}
    {t : Thread} (surplus : theirs.length ≤ mine.length) (ht : k.thread? e.tid = some t)
    (idle : t.call = none) (touched : Touched a b k k' e.tid)
    (queue : ∃ c, k'.chans p = some c ∧
      (side.queue c).Packed ((mine.drop theirs.length).map Entry.tid ++ [e.tid]))
    (pending : Pending k' side p e) : Line k' side p (mine ++ [e]) theirs := by
  have out : ∀ t, k.thread? e.tid = some t → Outside side p t := by
    intro t' ht' c hc
    rw [ht] at ht'
    cases ht'
    rw [idle] at hc
    cases hc
  refine ⟨?_, ?_, ?_, ?_, ?_⟩
  · rwa [List.drop_append_of_le_length surplus, List.map_append]
  · intro e' he'
    rw [List.drop_append_of_le_length surplus] at he'
    rcases List.mem_append.mp he' with old | new
    · exact (h.waiting e' old).keep hp touched
        (h.outside (List.mem_of_mem_drop old) out (h.waiting e' old).1)
    · rw [List.mem_singleton.mp new]
      exact pending
  · intro i e' f' he' hf'
    have lt := (List.getElem?_eq_some_iff.mp hf').1
    rw [List.getElem?_append_left (by omega)] at he'
    exact (h.settled i e' f' he' hf').keep hp touched (h.outside (List.mem_of_getElem? he') out)
  · refine List.pairwise_append.mpr ⟨h.unique, List.pairwise_singleton _ _, ?_⟩
    intro e₁ he₁ e₂ he₂ none₁ _
    rw [List.mem_singleton.mp he₂]
    exact h.outside he₁ out none₁
  · intro tid t' c ht' hc call
    by_cases eq : tid = e.tid
    · exact ⟨e, by simp, eq.symm, pending.1⟩
    · obtain ⟨e', he', same⟩ := h.calls_keep touched eq ht' hc call
      exact ⟨e', by simp [he'], same⟩

/-- The other side waits. -/
theorem Line.other_waits (h : Line k side p mine theirs) (few : mine.length ≤ theirs.length)
    (f : Entry) : Line k side p mine (theirs ++ [f]) where
  queue := by
    obtain ⟨c, hc, packed⟩ := h.queue
    rw [List.drop_eq_nil_of_le few] at packed
    exact ⟨c, hc, by rw [List.drop_eq_nil_of_le (by simp; omega)]; exact packed⟩
  waiting e he := by
    rw [List.drop_eq_nil_of_le (by simp; omega)] at he
    cases he
  settled i e f' he hf' := by
    have lt := (List.getElem?_eq_some_iff.mp he).1
    rw [List.getElem?_append_left (by omega)] at hf'
    exact h.settled i e f' he hf'
  unique := h.unique
  calls := h.calls

/-- A woken call returns. -/
theorem Line.finish (h : Line k side p mine theirs) (hp : p = a ∨ p = b) {tid : Nat}
    {t : Thread} (ht : k.thread? tid = some t) (woken : t.state = .ready)
    (touched : Touched a b k k' tid) (idle : ∀ t', k'.thread? tid = some t' → t'.call = none)
    (chans : k'.chans p = k.chans p) :
    Line k' side p (mine.map (Entry.finish tid (t.ipcActualLen, side.buffer t))) theirs := by
  have asleep : ∀ e ∈ mine.drop theirs.length, e.tid ≠ tid := by
    intro e he eq
    obtain ⟨_, t', ht', st, _⟩ := h.waiting e he
    rw [eq, ht] at ht'
    cases ht'
    rw [woken] at st
    cases st
  refine ⟨?_, ?_, ?_, ?_, ?_⟩
  · obtain ⟨c, hc, packed⟩ := h.queue
    refine ⟨c, chans.trans hc, ?_⟩
    rwa [← List.map_drop, List.map_map, funext (f := Entry.tid ∘ _) (Entry.finish_tid _ _)]
  · intro e' he'
    rw [← List.map_drop] at he'
    obtain ⟨e, he, rfl⟩ := List.mem_map.mp he'
    rw [Entry.finish_of_ne (asleep e he)]
    exact (h.waiting e he).keep hp touched (asleep e he)
  · intro i e' f he' hf
    rw [List.getElem?_map] at he'
    obtain ⟨e, he, rfl⟩ := Option.map_eq_some_iff.mp he'
    by_cases own : e.tid = tid ∧ e.result = none
    · rcases h.settled i e f he hf with done | ⟨_, t', ht', _, _, ans⟩
      · rw [own.2] at done; cases done
      · rw [own.1, ht] at ht'
        cases ht'
        rw [ans]
        exact Or.inl (by simp [Entry.finish, own])
    · rw [Entry.finish, if_neg own]
      exact (h.settled i e f he hf).keep hp touched fun res eq => own ⟨eq, res⟩
  · refine List.pairwise_map.mpr (h.unique.imp fun {e f} distinct none₁ none₂ => ?_)
    rw [Entry.finish_tid, Entry.finish_tid]
    exact distinct (Entry.finish_none none₁) (Entry.finish_none none₂)
  · intro tid' t' c ht' hc call
    by_cases eq : tid' = tid
    · rw [idle t' (eq ▸ ht')] at hc
      cases hc
    · obtain ⟨e, he, same, res⟩ := h.calls_keep touched eq ht' hc call
      refine ⟨e, List.mem_map.mpr ⟨e, he, Entry.finish_of_ne ?_⟩, same, res⟩
      exact same ▸ eq

/-- A call of the other side returns. -/
theorem Line.other_finish (h : Line k side p mine theirs) (tid : Nat) (ans : Nat × List UInt8) :
    Line k side p mine (theirs.map (Entry.finish tid ans)) where
  queue := by simpa using h.queue
  waiting := by simpa using h.waiting
  settled i e f' he hf' := by
    rw [List.getElem?_map] at hf'
    obtain ⟨f, hf, rfl⟩ := Option.map_eq_some_iff.mp hf'
    rw [Entry.finish_bytes]
    exact h.settled i e f he hf
  unique := h.unique
  calls := h.calls

end Steps

end Kernel

end CapsuleOS
