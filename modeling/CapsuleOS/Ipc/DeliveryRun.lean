import CapsuleOS.Ipc.DeliverySteps

/-!
# Delivery in every run

The four lines of a pair (two directions, two sides each) hold together after every step, so in
every run the reads of one endpoint return the writes of the other, in order.
-/
namespace CapsuleOS

open Lib

namespace Kernel

section Invoke

variable {p q cur : Nat} {k k' : Kernel} {side : Side} {data : List UInt8} {hs : List Nat}
  {t : Thread} {c d : Channel}

/-- A call that finds a waiting thread. -/
theorem invoke_serves {w : Thread} {d' : Channel} (link : k.Linked p q) (e : Elsewhere p q k)
    (ht : k.thread? cur = some t) (hd : k.chans q = some d)
    (pop : side.other.pop d = some (w.id, d')) (hw : k.thread? w.id = some w)
    (state : w.state = .blocked) (at_ : AtPair p q w) :
    (∀ err k', Exchange.invoke side cur p data hs k ≠ .err err k') ∧
    ∀ res k', Exchange.invoke side cur p data hs k = .ok res k' → k'.Linked p q →
      res.answer = some (side.answer data w.ipcBuf) ∧
      ∃ n buf, Served p q (k.setChan q (some d')) k' w n buf ∧
        ∀ t : Thread, t.ipcActualLen = n → t.ipcBuf = buf →
          (t.ipcActualLen, side.other.buffer t) = side.other.answer w.ipcBuf data := by
  obtain ⟨c, hc, open_, peer⟩ := link.left
  have e' : Elsewhere p q (k.setChan q (some d')) := by
    intro r c' tid rp rq hc' mem t' ht'
    rw [setChan_chans_ne _ rq] at hc'
    exact e r c' tid rp rq hc' mem t' ht'
  have ht' : (k.setChan q (some d')).thread? cur = some t := ht
  have hw' : (k.setChan q (some d')).thread? w.id = some w := hw
  cases side with
  | send =>
    have goes : Exchange.invoke .send cur p data hs k = sendTo cur w data hs (k.setChan q (some d')) :=
      meet_serve hc open_ ht peer hd pop hw
    rw [goes]
    refine ⟨fun err k' => sendTo_noErr ht' err, fun res k' ran link' => ?_⟩
    obtain ⟨rfl, served⟩ := sendTo_serves e' hw' state at_ ran link'.openEnds
    refine ⟨rfl, _, _, served, fun t hn hbuf => ?_⟩
    simp only [Side.other, Side.buffer, Side.answer, hn, hbuf]
  | recv =>
    have goes : Exchange.invoke .recv cur p data hs k =
        receiveFrom cur w data hs (k.setChan q (some d')) := meet_serve hc open_ ht peer hd pop hw
    rw [goes]
    obtain ⟨noErr, serves⟩ := receiveFrom_outcome e' ht' hw' state at_ data hs
    refine ⟨noErr, fun res k' ran link' => ?_⟩
    obtain ⟨ans, served⟩ := serves res k' ran link'.openEnds
    refine ⟨ans, _, _, served, fun t hn _ => ?_⟩
    simp only [Side.other, Side.buffer, Side.answer, hn]

/-- A call that finds nobody. -/
theorem invoke_waits (link : k.Linked p q) (e : Elsewhere p q k) (ht : k.thread? cur = some t)
    (idle : t.call = none) (hc : k.chans p = some c) (hd : k.chans q = some d)
    (pop : side.other.pop d = none) :
    (∀ err k', Exchange.invoke side cur p data hs k = .err err k' → k'.Linked p q →
      Unqueued p q k k' cur) ∧
    ∀ res k', Exchange.invoke side cur p data hs k = .ok res k' → k'.Linked p q →
      res.answer = none ∧ ∃ c' call, side.push c cur = some c' ∧ side.Awaits p call ∧
        Queued p q k k' cur call data c' := by
  obtain ⟨c₀, hc₀, open_, peer⟩ := link.left
  rw [hc] at hc₀
  cases hc₀
  cases side with
  | send =>
    have goes : Exchange.invoke .send cur p data hs k = waitSender cur p data hs k :=
      meet_wait hc open_ ht peer hd pop
    rw [goes]
    obtain ⟨fails, waits⟩ := waitSender_outcome link.ne e hc ht idle data hs
    refine ⟨fun err k' ran link' => fails err k' ran link'.openEnds, fun res k' ran link' => ?_⟩
    obtain ⟨rfl, c', push, queued⟩ := waits res k' ran link'.openEnds
    exact ⟨rfl, c', _, push, rfl, queued⟩
  | recv =>
    have goes : Exchange.invoke .recv cur p data hs k = waitReceiver cur p (.read p hs)
        (k.modifyThread cur fun t => (t.block data).clearMailbox) :=
      meet_wait hc open_ ht peer hd pop
    rw [goes]
    have first : Unqueued p q k (k.modifyThread cur fun t => (t.block data).clearMailbox) cur :=
      .of_modify (fun _ => rfl) (fun _ => rfl) e ht idle
    obtain ⟨fails, waits⟩ := waitReceiver_outcome (.read p hs) link.ne
      (first.left.trans hc) first (modifyThread_same _ (fun _ => rfl) ht) rfl rfl
    refine ⟨fun err k' ran _ => fails err k' ran, fun res k' ran _ => ?_⟩
    obtain ⟨rfl, c', push, queued⟩ := waits res k' ran
    exact ⟨rfl, c', _, push, ⟨hs, rfl⟩, queued⟩

/-- A woken call returns what its thread holds. -/
theorem resume_answer {call : Call} (ht : k.thread? cur = some t) (hc : t.call = some call)
    (side_call : side.Awaits p call) :
    ∃ res k', resume cur k = .ok res k' ∧ res.answer = some (t.ipcActualLen, side.buffer t) ∧
      k'.chans = k.chans ∧ (∃ t', k'.thread? cur = some t' ∧ t'.call = none) ∧
      ∀ tid, tid ≠ cur → k'.thread? tid = k.thread? tid := by
  have others : ∀ tid, tid ≠ cur → (wakeUp cur k).thread? tid = k.thread? tid := by
    intro tid ne
    rw [wakeUp, thread?_modifyThread _ (by intro; rfl), if_neg ne]
  cases side with
  | send =>
    cases side_call
    exact ⟨_, _, resume_write ht hc, rfl, rfl, ⟨_, wakeUp_thread? ht, rfl⟩, others⟩
  | recv =>
    obtain ⟨hs, rfl⟩ := side_call
    refine ⟨_, _, resume_read ht hc, rfl, rfl,
      ⟨_, modifyThread_same _ (fun _ => rfl) (wakeUp_thread? ht), rfl⟩, fun tid ne => ?_⟩
    rw [thread?_modifyThread _ (by intro; rfl), if_neg ne, others tid ne]

end Invoke

end Kernel

namespace Exchange

open Kernel

/-- `p` and `q` are the two endpoints, in either order. -/
def Ends (a b p q : Nat) : Prop := p = a ∧ q = b ∨ p = b ∧ q = a

/-- The invariant of a run. -/
structure Delivers (a b : Nat) (s : Exchange) : Prop where
  elsewhere : Elsewhere a b s.kernel
  line : ∀ side p q, Ends a b p q → Line s.kernel side p (s.log side p) (s.log side.other q)

variable {a b p q : Nat} {s s' : Exchange} {side : Side}

theorem Ends.symm (h : Ends a b p q) : Ends a b q p := by
  rcases h with ⟨rfl, rfl⟩ | ⟨rfl, rfl⟩
  · exact Or.inr ⟨rfl, rfl⟩
  · exact Or.inl ⟨rfl, rfl⟩

theorem Ends.of_or (h : p = a ∨ p = b) : ∃ q, Ends a b p q := by
  rcases h with rfl | rfl
  · exact ⟨b, Or.inl ⟨rfl, rfl⟩⟩
  · exact ⟨a, Or.inr ⟨rfl, rfl⟩⟩

theorem Ends.linked {k : Kernel} (h : Ends a b p q) (link : k.Linked a b) : k.Linked p q := by
  rcases h with ⟨rfl, rfl⟩ | ⟨rfl, rfl⟩
  · exact link
  · exact link.symm

theorem Ends.elsewhere {k : Kernel} (h : Ends a b p q) (e : Elsewhere a b k) : Elsewhere p q k := by
  rcases h with ⟨rfl, rfl⟩ | ⟨rfl, rfl⟩
  · exact e
  · exact e.symm

@[simp] theorem setLog_kernel (es : List Entry) : (s.setLog side p es).kernel = s.kernel := rfl

@[simp] theorem setLog_log_same (es : List Entry) : (s.setLog side p es).log side p = es := by
  simp [setLog]

theorem setLog_log_side (es : List Entry) (p' : Nat) :
    (s.setLog side p es).log side.other p' = s.log side.other p' := by
  cases side <;> simp [setLog, Side.other]

theorem setLog_log_ne (es : List Entry) (side' : Side) (ne : q ≠ p) :
    (s.setLog side p es).log side' q = s.log side' q := by
  simp [setLog, ne]

theorem call_unique {side' : Side} {c : Call} (h : side.Awaits p c) (h' : side'.Awaits q c) :
    side = side' ∧ p = q := by
  cases side with
  | send =>
    cases h
    cases side' with
    | send => cases h'; exact ⟨rfl, rfl⟩
    | recv => obtain ⟨_, h'⟩ := h'; cases h'
  | recv =>
    obtain ⟨_, rfl⟩ := h
    cases side' with
    | send => cases h'
    | recv => obtain ⟨_, h'⟩ := h'; cases h'; exact ⟨rfl, rfl⟩

/-- The invariant in terms of the endpoint a step happens on. -/
theorem Delivers.of_lines (side : Side) (ends : Ends a b p q) (elsewhere : Elsewhere p q s.kernel)
    (here : Line s.kernel side p (s.log side p) (s.log side.other q))
    (there : Line s.kernel side.other q (s.log side.other q) (s.log side p))
    (back : Line s.kernel side.other p (s.log side.other p) (s.log side q))
    (forth : Line s.kernel side q (s.log side q) (s.log side.other p)) : Delivers a b s where
  elsewhere := by
    rcases ends with ⟨rfl, rfl⟩ | ⟨rfl, rfl⟩
    · exact elsewhere
    · exact elsewhere.symm
  line side' p' q' ends' := by
    have sides : side' = side ∨ side' = side.other := by
      cases side <;> cases side' <;> simp [Side.other]
    have points : p' = p ∧ q' = q ∨ p' = q ∧ q' = p := by
      rcases ends with ⟨rfl, rfl⟩ | ⟨rfl, rfl⟩
      · exact ends'
      · exact Or.symm ends'
    rcases sides with rfl | rfl <;> rcases points with ⟨rfl, rfl⟩ | ⟨rfl, rfl⟩
    · exact here
    · exact forth
    · simpa using back
    · simpa using there

/-- A thread in a call of one side on one endpoint is outside every other line. -/
theorem outside_of_call {side' : Side} {t : Thread} {c : Call} (hc : t.call = some c)
    (call : side.Awaits p c) (ne : side' ≠ side ∨ q ≠ p) : Outside side' q t := by
  intro c' hc' call'
  rw [hc] at hc'
  cases hc'
  obtain ⟨rfl, rfl⟩ := call_unique call call'
  simp at ne

theorem outside_of_idle {t : Thread} (hc : t.call = none) : Outside side p t := by
  intro c' hc'
  rw [hc] at hc'
  cases hc'

theorem kept {k k' : Kernel} (h : k'.chans p = k.chans p) (c : Channel) (hc : k.chans p = some c) :
    ∃ c', k'.chans p = some c' ∧ side.queue c' = side.queue c :=
  ⟨c, h.trans hc, rfl⟩

theorem thread_ind {P : Thread → Prop} {k : Kernel} {tid : Nat} {t : Thread}
    (ht : k.thread? tid = some t) (h : P t) : ∀ u, k.thread? tid = some u → P u := by
  intro u hu
  rw [ht] at hu
  cases hu
  exact h

/-- A call fails. -/
theorem Delivers.fail (h : Delivers a b s) (ends : Ends a b p q) {tid : Nat} {t : Thread}
    {k' : Kernel} (ht : s.kernel.thread? tid = some t) (idle : t.call = none)
    (same : Unqueued p q s.kernel k' tid) : Delivers a b { s with kernel := k' } := by
  obtain ⟨t', ht', idle'⟩ := same.thread
  have left : ∀ side, Line k' side p (s.log side p) (s.log side.other q) := fun side =>
    (h.line side p q ends).keep (Or.inl rfl) same.touched (kept same.left)
      (thread_ind ht (outside_of_idle idle)) (thread_ind ht' (outside_of_idle idle'))
  have right : ∀ side, Line k' side q (s.log side q) (s.log side.other p) := fun side =>
    (h.line side q p ends.symm).keep (Or.inr rfl) same.touched (kept same.right)
      (thread_ind ht (outside_of_idle idle)) (thread_ind ht' (outside_of_idle idle'))
  exact .of_lines .send ends same.touched.elsewhere (left .send) (right .recv)
    (left .recv) (right .send)

/-- A call finds nobody and waits. -/
theorem Delivers.wait (h : Delivers a b s) (ends : Ends a b p q) (ne : p ≠ q) {tid : Nat} {t : Thread}
    {k' : Kernel} {call : Call} {data : List UInt8} {c c' : Channel}
    (few : (s.log side.other q).length ≤ (s.log side p).length)
    (ht : s.kernel.thread? tid = some t) (idle : t.call = none) (hc : s.kernel.chans p = some c)
    (push : side.push c tid = some c') (side_call : side.Awaits p call)
    (queued : Queued p q s.kernel k' tid call data c') :
    Delivers a b ({ s with kernel := k' }.accept side p ⟨tid, data, none⟩) := by
  obtain ⟨t', ht', state, hcall, buf⟩ := queued.thread
  obtain ⟨c₀, hc₀, packed⟩ := (h.line side p q ends).queue
  rw [hc] at hc₀
  cases hc₀
  obtain ⟨packed', same⟩ := Side.push_packed packed push
  have before : ∀ side p, ∀ u, s.kernel.thread? tid = some u → Outside side p u :=
    fun _ _ => thread_ind ht (outside_of_idle idle)
  have after : ∀ side' p', side' ≠ side ∨ p' ≠ p → ∀ u, k'.thread? tid = some u →
      Outside side' p' u := fun _ _ other => thread_ind ht' (outside_of_call hcall side_call other)
  refine .of_lines side ends queued.touched.elsewhere ?_ ?_ ?_ ?_
  · rw [accept, setLog_log_same, setLog_log_side]
    exact (h.line side p q ends).accept_pending (e := ⟨tid, data, none⟩) (Or.inl rfl) few ht idle
      queued.touched ⟨c', queued.left, packed'⟩
      ⟨rfl, t', ht', state, ⟨call, hcall, side_call⟩, buf⟩
  · rw [accept, setLog_log_same, setLog_log_side]
    have line := h.line side.other q p ends.symm
    rw [Side.other_other] at line
    exact (line.keep (Or.inr rfl) queued.touched (kept queued.right) (before _ _)
      (after _ _ (Or.inl side.other_ne))).other_waits few _
  · rw [accept, setLog_log_side, setLog_log_ne _ _ ne.symm]
    have line := h.line side.other p q ends
    rw [Side.other_other] at line
    refine line.keep (Or.inl rfl) queued.touched (fun c₀ hc₀ => ?_) (before _ _)
      (after _ _ (Or.inl side.other_ne))
    rw [hc] at hc₀
    cases hc₀
    exact ⟨c', queued.left, same⟩
  · rw [accept, setLog_log_side, setLog_log_ne _ _ ne.symm]
    exact (h.line side q p ends.symm).keep (Or.inr rfl) queued.touched (kept queued.right)
      (before _ _) (after _ _ (Or.inr ne.symm))

/-- A call serves the thread that has waited longest on the other side. -/
theorem Delivers.serve (h : Delivers a b s) (ends : Ends a b p q) (ne : p ≠ q) {tid n : Nat}
    {w : Thread} {f : Entry} {k' : Kernel} {c : Call} {data buf : List UInt8} {d d' : Channel}
    (hf : (s.log side.other q)[(s.log side p).length]? = some f) (id_eq : w.id = f.tid)
    (hw : s.kernel.thread? w.id = some w) (bytes : w.ipcBuf = f.bytes) (hc : w.call = some c)
    (side_call : side.other.Awaits q c) (hd : s.kernel.chans q = some d)
    (packed : (side.other.queue d').Packed
      (((s.log side.other q).drop ((s.log side p).length + 1)).map Entry.tid))
    (same : side.queue d' = side.queue d)
    (served : Served p q (s.kernel.setChan q (some d')) k' w n buf)
    (right : ∀ t : Thread, t.ipcActualLen = n → t.ipcBuf = buf →
      (t.ipcActualLen, side.other.buffer t) = side.other.answer w.ipcBuf data) :
    Delivers a b ({ s with kernel := k' }.accept side p
      ⟨tid, data, some (side.answer data w.ipcBuf)⟩) := by
  obtain ⟨t', ht', state, hcall, len, hbuf⟩ := served.thread
  have elsewhere := ends.elsewhere h.elsewhere
  have popped : Touched p q s.kernel (s.kernel.setChan q (some d')) w.id :=
    .of_local elsewhere (fun _ _ => rfl) (fun r _ rq => setChan_chans_ne _ rq _)
      ⟨w, hw, atPair_of_side (Or.inr rfl) hc side_call⟩
  have touched := popped.trans served.touched
  have left : k'.chans p = s.kernel.chans p := served.left.trans (setChan_chans_ne _ ne _)
  have queue : ∀ c, s.kernel.chans q = some c → ∃ c', k'.chans q = some c' ∧
      side.queue c' = side.queue c := by
    intro c hc
    rw [hd] at hc
    cases hc
    exact ⟨d', served.right.trans (setChan_chans_same _ _ _), same⟩
  have before : ∀ side' p', side' ≠ side.other ∨ p' ≠ q → ∀ u, s.kernel.thread? w.id = some u →
      Outside side' p' u := fun _ _ other => thread_ind hw (outside_of_call hc side_call other)
  have after : ∀ side' p', side' ≠ side.other ∨ p' ≠ q → ∀ u, k'.thread? w.id = some u →
      Outside side' p' u :=
    fun _ _ other => thread_ind ht' (outside_of_call (hcall.trans hc) side_call other)
  refine .of_lines side ends touched.elsewhere ?_ ?_ ?_ ?_
  · rw [accept, setLog_log_same, setLog_log_side]
    exact ((h.line side p q ends).keep (Or.inl rfl) touched (kept left) (before _ _ (Or.inr ne))
      (after _ _ (Or.inr ne))).accept_paired hf (by rw [bytes])
  · rw [accept, setLog_log_same, setLog_log_side]
    have line := h.line side.other q p ends.symm
    rw [Side.other_other] at line
    have none_res : f.result = none := by
      refine (line.waiting f (List.mem_of_getElem? (i := 0) ?_)).1
      rw [List.getElem?_drop, ← hf]
      rfl
    refine line.served (Or.inr rfl) hf (id_eq ▸ touched)
      ⟨d', served.right.trans (setChan_chans_same _ _ _), packed⟩ (Or.inr ⟨none_res, t', ?_⟩)
    rw [← bytes, ← id_eq]
    exact ⟨ht', state, ⟨c, hcall.trans hc, side_call⟩, right t' len hbuf⟩
  · rw [accept, setLog_log_side, setLog_log_ne _ _ ne.symm]
    have line := h.line side.other p q ends
    rw [Side.other_other] at line
    exact line.keep (Or.inl rfl) touched (kept left) (before _ _ (Or.inr ne)) (after _ _ (Or.inr ne))
  · rw [accept, setLog_log_side, setLog_log_ne _ _ ne.symm]
    exact (h.line side q p ends.symm).keep (Or.inr rfl) touched queue
      (before _ _ (Or.inl side.other_ne.symm)) (after _ _ (Or.inl side.other_ne.symm))

/-- A woken call returns. -/
theorem Delivers.resumed (h : Delivers a b s) (ends : Ends a b p q) (ne : p ≠ q) {tid : Nat}
    {t t' : Thread} {c : Call} {k' : Kernel} (ht : s.kernel.thread? tid = some t)
    (hc : t.call = some c) (side_call : side.Awaits p c) (woken : t.state = .ready)
    (chans : k'.chans = s.kernel.chans) (ht' : k'.thread? tid = some t') (idle : t'.call = none)
    (others : ∀ tid', tid' ≠ tid → k'.thread? tid' = s.kernel.thread? tid') :
    Delivers a b ({ s with kernel := k' }.finish side p tid (t.ipcActualLen, side.buffer t)) := by
  have touched : Touched p q s.kernel k' tid :=
    .of_local (ends.elsewhere h.elsewhere) others (fun r _ _ => by rw [chans])
      ⟨t, ht, atPair_of_side (Or.inl rfl) hc side_call⟩
  have before : ∀ side' p', side' ≠ side ∨ p' ≠ p → ∀ u, s.kernel.thread? tid = some u →
      Outside side' p' u := fun _ _ other => thread_ind ht (outside_of_call hc side_call other)
  have after : ∀ side' p', ∀ u, k'.thread? tid = some u → Outside side' p' u :=
    fun _ _ => thread_ind ht' (outside_of_idle idle)
  refine .of_lines side ends touched.elsewhere ?_ ?_ ?_ ?_
  · rw [finish, setLog_log_same, setLog_log_side]
    exact (h.line side p q ends).finish (Or.inl rfl) ht woken touched (thread_ind ht' idle)
      (congrFun chans _)
  · rw [finish, setLog_log_same, setLog_log_side]
    have line := h.line side.other q p ends.symm
    rw [Side.other_other] at line
    exact (line.keep (Or.inr rfl) touched (kept (congrFun chans _)) (before _ _ (Or.inr ne.symm))
      (after _ _)).other_finish _ _
  · rw [finish, setLog_log_side, setLog_log_ne _ _ ne.symm]
    have line := h.line side.other p q ends
    rw [Side.other_other] at line
    exact line.keep (Or.inl rfl) touched (kept (congrFun chans _))
      (before _ _ (Or.inl side.other_ne)) (after _ _)
  · rw [finish, setLog_log_side, setLog_log_ne _ _ ne.symm]
    exact (h.line side q p ends.symm).keep (Or.inr rfl) touched (kept (congrFun chans _))
      (before _ _ (Or.inr ne.symm)) (after _ _)

/-- Whoever has waited longest on the other side. -/
theorem Delivers.head (h : Delivers a b s) (ends : Ends a b p q)
    (lt : (s.log side p).length < (s.log side.other q).length) :
    ∃ f w c d d', (s.log side.other q)[(s.log side p).length]? = some f ∧ w.id = f.tid ∧
      s.kernel.thread? w.id = some w ∧ w.state = .blocked ∧ w.ipcBuf = f.bytes ∧
      w.call = some c ∧ side.other.Awaits q c ∧ s.kernel.chans q = some d ∧
      side.other.pop d = some (w.id, d') ∧ (side.other.queue d').Packed
        (((s.log side.other q).drop ((s.log side p).length + 1)).map Entry.tid) ∧
      side.queue d' = side.queue d := by
  have line := h.line side.other q p ends.symm
  rw [Side.other_other] at line
  have split := List.drop_eq_getElem_cons lt
  obtain ⟨_, w, hw, state, ⟨c, hc, call⟩, buf⟩ := line.waiting _ (split ▸ List.mem_cons_self)
  have id_eq := s.kernel.thread?_id hw
  obtain ⟨d, hd, packed⟩ := line.queue
  rw [split, List.map_cons] at packed
  obtain ⟨d', pop, packed', same⟩ := Side.pop_cons packed
  rw [Side.other_other] at same
  exact ⟨_, w, c, d, d', List.getElem?_eq_getElem lt, id_eq, id_eq ▸ hw, state, buf, hc, call, hd,
    id_eq ▸ pop, packed', same⟩

/-- Nobody waits on the other side. -/
theorem Delivers.nobody (h : Delivers a b s) (ends : Ends a b p q)
    (few : ¬ (s.log side p).length < (s.log side.other q).length) :
    ∃ d, s.kernel.chans q = some d ∧ side.other.pop d = none := by
  have line := h.line side.other q p ends.symm
  rw [Side.other_other] at line
  obtain ⟨d, hd, packed⟩ := line.queue
  rw [List.drop_eq_nil_of_le (Nat.not_lt.mp few)] at packed
  exact ⟨d, hd, Side.pop_nil packed⟩

/-- Every step keeps the invariant, as long as it leaves the pair linked. -/
theorem Delivers.step (h : Delivers a b s) (link : s.kernel.Linked a b) (step : Step a b s s')
    (link' : s'.kernel.Linked a b) : Delivers a b s' := by
  cases step with
  | @call side tid p data hs t r k' at_pair ht idle ran =>
    obtain ⟨q, ends⟩ := Ends.of_or at_pair
    have link₁ := ends.linked link
    have elsewhere := ends.elsewhere h.elsewhere
    by_cases lt : (s.log side p).length < (s.log side.other q).length
    · obtain ⟨f, w, c, d, d', hf, id_eq, hw, state, buf, hc, call, hd, pop, packed, same⟩ :=
        h.head ends lt
      obtain ⟨ans, n, out, served, right⟩ := (invoke_serves link₁ elsewhere ht hd pop hw state
        (atPair_of_side (Or.inr rfl) hc call)).2 r k' ran (ends.linked link')
      rw [ans]
      exact h.serve ends link₁.ne hf id_eq hw buf hc call hd packed same served right
    · obtain ⟨d, hd, pop⟩ := h.nobody ends lt
      obtain ⟨c, hc, _⟩ := link₁.left
      obtain ⟨ans, c', call, push, side_call, queued⟩ :=
        (invoke_waits link₁ elsewhere ht idle hc hd pop).2 r k' ran (ends.linked link')
      rw [ans]
      exact h.wait ends link₁.ne (Nat.not_lt.mp lt) ht idle hc push side_call queued
  | @fail side tid p data hs t e k' at_pair ht idle ran =>
    obtain ⟨q, ends⟩ := Ends.of_or at_pair
    have link₁ := ends.linked link
    have elsewhere := ends.elsewhere h.elsewhere
    by_cases lt : (s.log side p).length < (s.log side.other q).length
    · obtain ⟨f, w, c, d, d', _, _, hw, state, _, hc, call, hd, pop, _⟩ := h.head ends lt
      exact absurd ran ((invoke_serves link₁ elsewhere ht hd pop hw state
        (atPair_of_side (Or.inr rfl) hc call)).1 e k')
    · obtain ⟨d, hd, pop⟩ := h.nobody ends lt
      obtain ⟨c, hc, _⟩ := link₁.left
      exact h.fail ends ht idle
        ((invoke_waits link₁ elsewhere ht idle hc hd pop).1 e k' ran (ends.linked link'))
  | @resume side tid p t c r k' answer at_pair ht call side_call woken ran hr =>
    obtain ⟨q, ends⟩ := Ends.of_or at_pair
    obtain ⟨r', k₂, ran', hr', chans, ⟨t', ht', idle⟩, others⟩ := resume_answer ht call side_call
    rw [ran] at ran'
    cases ran'
    rw [hr] at hr'
    cases hr'
    exact h.resumed ends (ends.linked link).ne ht call side_call woken chans ht' idle others

/-- Runs that keep the pair linked. -/
inductive Run (a b : Nat) (s : Exchange) : Exchange → Prop where
  | refl : Run a b s s
  | step {s' s'' : Exchange} (run : Run a b s s') (step : Step a b s' s'')
      (link : s''.kernel.Linked a b) : Run a b s s''

/-- A linked pair on which nothing has happened yet. -/
structure Start (a b : Nat) (s : Exchange) : Prop where
  linked : s.kernel.Linked a b
  elsewhere : Elsewhere a b s.kernel
  unused : ∀ p c, p = a ∨ p = b → s.kernel.chans p = some c →
    c.sendWaiters = Slots.empty ∧ c.recvWaiters = Slots.empty
  idle : ∀ tid t c, s.kernel.thread? tid = some t → t.call = some c → c.chan ≠ a ∧ c.chan ≠ b
  log : ∀ side p, p = a ∨ p = b → s.log side p = []

theorem Ends.mem (h : Ends a b p q) : p = a ∨ p = b := h.imp And.left And.left

theorem Start.delivers (h : Start a b s) : Delivers a b s where
  elsewhere := h.elsewhere
  line side p q ends := by
    obtain ⟨c, hc, _⟩ := (ends.linked h.linked).left
    obtain ⟨noSender, noReceiver⟩ := h.unused p c ends.mem hc
    rw [h.log side p ends.mem, h.log side.other q ends.symm.mem]
    refine ⟨⟨c, hc, ?_⟩, fun e he => ?_, fun i e f he => ?_, List.Pairwise.nil,
      fun tid t c ht hcall call => ?_⟩
    · cases side with
      | send => simpa [Side.queue, noSender] using Slots.packed_empty
      | recv => simpa [Side.queue, noReceiver] using Slots.packed_empty
    · simp at he
    · simp at he
    · have at_ : c.chan = a ∨ c.chan = b := atPair_of_side ends.mem hcall call c hcall
      have far := h.idle tid t c ht hcall
      exact at_.elim (fun eq => absurd eq far.1) fun eq => absurd eq far.2

theorem Run.delivers (h : Start a b s) (run : Run a b s s') :
    Delivers a b s' ∧ s'.kernel.Linked a b := by
  induction run with
  | refl => exact ⟨h.delivers, h.linked⟩
  | step _ step link ih => exact ⟨ih.1.step ih.2 step link, link⟩

/-- The call has returned `answer`, or its thread is awake and resuming it returns `answer`. -/
def Completes (k : Kernel) (e : Entry) (answer : Nat × List UInt8) : Prop :=
  e.result = some answer ∨ e.result = none ∧ (∃ t, k.thread? e.tid = some t ∧ t.state = .ready) ∧
    ∃ r k', Kernel.resume e.tid k = .ok r k' ∧ r.answer = some answer

/-- The messages from `p` to `q` are delivered: the `i`-th read gets the `i`-th write. -/
structure Delivered (k : Kernel) (p q : Nat) (writes reads : List Entry) : Prop where
  read_of_write : ∀ (i : Nat) r ans, reads[i]? = some r → r.result = some ans →
    ∃ w, writes[i]? = some w ∧ ans = (min w.bytes.length r.bytes.length,
      splice r.bytes 0 (w.bytes.take (min w.bytes.length r.bytes.length)))
  write_to_read : ∀ (i : Nat) w ans, writes[i]? = some w → w.result = some ans →
    ∃ r, reads[i]? = some r ∧ ans = (min w.bytes.length r.bytes.length, [])
  completes : ∀ (i : Nat) w r, writes[i]? = some w → reads[i]? = some r →
    Completes k w (min w.bytes.length r.bytes.length, []) ∧
    Completes k r (min w.bytes.length r.bytes.length,
      splice r.bytes 0 (w.bytes.take (min w.bytes.length r.bytes.length)))
  senders : ∀ c, k.chans p = some c →
    c.sendWaiters.occupants = (writes.drop reads.length).map Entry.tid
  receivers : ∀ d, k.chans q = some d →
    d.recvWaiters.occupants = (reads.drop writes.length).map Entry.tid
  one_side : ∀ c d, k.chans p = some c → k.chans q = some d →
    c.sendWaiters.occupants = [] ∨ d.recvWaiters.occupants = []

/-- A returned call has its partner. -/
theorem returned_of_line {k : Kernel} {mine theirs : List Entry}
    (h : Line k side p mine theirs) {i : Nat} {e : Entry} {ans : Nat × List UInt8}
    (he : mine[i]? = some e) (done : e.result = some ans) :
    ∃ f, theirs[i]? = some f ∧ ans = side.answer e.bytes f.bytes := by
  by_cases lt : i < theirs.length
  · refine ⟨theirs[i], List.getElem?_eq_getElem lt, ?_⟩
    rcases h.settled i e _ he (List.getElem?_eq_getElem lt) with same | ⟨none_res, _⟩
    · rw [done] at same
      exact Option.some.inj same
    · rw [done] at none_res
      cases none_res
  · have mem : e ∈ mine.drop theirs.length := by
      refine List.mem_of_getElem? (i := i - theirs.length) ?_
      rw [List.getElem?_drop, ← he]
      congr 1
      omega
    have none_res := (h.waiting e mem).1
    rw [done] at none_res
    cases none_res

theorem completes_of_settled {k : Kernel} {e : Entry} {ans : Nat × List UInt8}
    (h : Settled k side p ans e) : Completes k e ans := by
  rcases h with done | ⟨res, t, ht, woken, ⟨c, hc, call⟩, same⟩
  · exact Or.inl done
  · obtain ⟨r, k', ran, hr, _⟩ := resume_answer ht hc call
    exact Or.inr ⟨res, ⟨t, ht, woken⟩, r, k', ran, by rw [hr, same]⟩

end Exchange

/-- In every run of reads and writes that leaves the pair linked, and in both directions, the reads
of one endpoint return the writes of the other in the order in which they were accepted. -/
theorem channel_delivery {a b p q : Nat} {s s' : Exchange} (start : Exchange.Start a b s)
    (run : Exchange.Run a b s s') (ends : Exchange.Ends a b p q) :
    Exchange.Delivered s'.kernel p q (s'.log .send p) (s'.log .recv q) := by
  obtain ⟨inv, _⟩ := run.delivers start
  have sends := inv.line .send p q ends
  have recvs := inv.line .recv q p ends.symm
  have senders : ∀ c, s'.kernel.chans p = some c → c.sendWaiters.occupants =
      ((s'.log .send p).drop (s'.log .recv q).length).map Entry.tid := by
    intro c hc
    obtain ⟨c', hc', packed⟩ := sends.queue
    rw [hc] at hc'
    cases hc'
    exact packed.occupants
  have receivers : ∀ d, s'.kernel.chans q = some d → d.recvWaiters.occupants =
      ((s'.log .recv q).drop (s'.log .send p).length).map Entry.tid := by
    intro d hd
    obtain ⟨d', hd', packed⟩ := recvs.queue
    rw [hd] at hd'
    cases hd'
    exact packed.occupants
  refine ⟨fun i r ans hr done => ?_, fun i w ans hw done => ?_, fun i w r hw hr => ⟨?_, ?_⟩,
    senders, receivers, fun c d hc hd => ?_⟩
  · exact Exchange.returned_of_line recvs hr done
  · exact Exchange.returned_of_line sends hw done
  · exact Exchange.completes_of_settled (sends.settled i w r hw hr)
  · exact Exchange.completes_of_settled (recvs.settled i r w hr hw)
  · rw [senders c hc, receivers d hd]
    rcases Nat.le_total (s'.log .send p).length (s'.log .recv q).length with le | le
    · exact Or.inl (by rw [List.drop_eq_nil_of_le le]; rfl)
    · exact Or.inr (by rw [List.drop_eq_nil_of_le le]; rfl)

namespace Exchange

/-- The small machine before any call. -/
def demoStart : Exchange := ⟨Kernel.demo (.port 9), fun _ _ => []⟩

/-- There, the first thread writes two bytes and waits. -/
def demoSent : Exchange :=
  { demoStart with kernel := (invoke .send 1 100 [7, 8] [] demoStart.kernel).state }.accept .send 100
    ⟨1, [7, 8], none⟩

/-- Then the second thread reads into a buffer of one byte. -/
def demoReceived : Exchange :=
  { demoSent with kernel := (invoke .recv 2 200 [0] [] demoSent.kernel).state }.accept .recv 200
    ⟨2, [0], some (1, [7])⟩

theorem demoStart_start : Start 100 200 demoStart where
  linked := ⟨by decide, ⟨_, rfl, by decide, rfl⟩, ⟨_, rfl, by decide, rfl⟩⟩
  elsewhere p c tid pa pb hc := by
    simp [demoStart, Kernel.demo, pa, pb] at hc
  unused p c hp hc := by
    rcases hp with rfl | rfl <;> cases hc <;> exact ⟨rfl, rfl⟩
  idle tid t c ht hc := by
    rcases Kernel.demo_threads ht with rfl | rfl <;> cases hc
  log _ _ _ := rfl

theorem demoReceived_run : Run 100 200 demoStart demoReceived := by
  have write : invoke .send 1 100 [7, 8] [] demoStart.kernel = .ok .blocked demoSent.kernel := rfl
  have read : invoke .recv 2 200 [0] [] demoSent.kernel =
    .ok (.read 1 [7] []) demoReceived.kernel := rfl
  have sent : Step 100 200 demoStart demoSent :=
    .call (Or.inl rfl) (t := Kernel.demoThread 1) rfl rfl write
  have received : Step 100 200 demoSent demoReceived :=
    .call (Or.inr rfl) (t := Kernel.demoThread 2) rfl rfl read
  have linked : demoSent.kernel.Linked 100 200 ∧ demoReceived.kernel.Linked 100 200 :=
    ⟨⟨by decide, ⟨_, rfl, by decide, rfl⟩, ⟨_, rfl, by decide, rfl⟩⟩,
      ⟨by decide, ⟨_, rfl, by decide, rfl⟩, ⟨_, rfl, by decide, rfl⟩⟩⟩
  exact (Run.refl.step sent linked.1).step received linked.2

end Exchange

/-- A write and a read on the small machine. -/
theorem channel_delivery_demo :
    Exchange.Delivered Exchange.demoReceived.kernel 100 200 [⟨1, [7, 8], none⟩]
      [⟨2, [0], some (1, [7])⟩] :=
  channel_delivery Exchange.demoStart_start Exchange.demoReceived_run (Or.inl ⟨rfl, rfl⟩)

end CapsuleOS
