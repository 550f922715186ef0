import CapsuleOS.Ipc.Machine

/-!
# Received handles

New handle values reach a reading thread through its mailbox, `ipc_transfer_handles`. A read that
waits clears the mailbox first; a read that finds a sender, and every timed read, does not, so that
values an earlier read had no room for come out again.

The values a message creates in the receiver's table are computed here apart from the mailbox, and
the results say when a read reports exactly these.
-/
namespace CapsuleOS

open Lib

namespace Kernel

/-! ## What a message creates -/

/-- The handle values that `injectHandles` creates in the receiver's table. -/
def injected (tab rtab receiver : Nat) : List Nat → Nat → Kernel → List Nat
  | [], _, _ => []
  | h :: hs, hIdx, k =>
    match takeHandle tab h k with
    | .ok (some (obj, rights)) k₁ =>
      match addHandle rtab obj rights k₁ with
      | .ok hv k₂ => hv :: injected tab rtab receiver hs (hIdx + 1) (deliver receiver hIdx hv k₂)
      | .err _ k₂ => injected tab rtab receiver hs hIdx k₂
      | .fault _ => []
    | .ok none k₁ => injected tab rtab receiver hs hIdx k₁
    | _ => []

/-- The handle values that `receiveStash` creates in the reader's table. -/
def received (tab cur sender : Nat) : List Nat → Nat → Kernel → List Nat
  | [], _, _ => []
  | i :: is, hIdx, k =>
    match k.stashed sender i with
    | none => received tab cur sender is hIdx k
    | some (obj, rights) =>
      match addHandle tab obj rights (setStash sender i none k) with
      | .ok hv k₂ => hv :: received tab cur sender is (hIdx + 1) (deliver cur hIdx hv k₂)
      | .err _ k₂ => received tab cur sender is hIdx k₂
      | .fault _ => []

/-- The handle values that `passHandles` creates for the receiver `w`. -/
def passed (cur : Nat) (w : Thread) (hs : List Nat) (k : Kernel) : List Nat :=
  match (k.thread? cur).bind (·.handleTable), w.handleTable with
  | some tab, some rtab => injected tab rtab w.id (hs.take 2) 0 k
  | _, _ => []

/-- The handle values created for the receiver `w` by the write of a message. -/
def createdByWrite (cur : Nat) (w : Thread) (data : List UInt8) (hs : List Nat) (k : Kernel) :
    List Nat :=
  passed cur w hs (k.modifyThread w.id (·.fill (data.take (min data.length w.ipcBuf.length))))

/-- The handle values created for the reader by taking the message of `w`. -/
def createdByRead (cur : Nat) (w : Thread) (k : Kernel) : List Nat :=
  match (k.thread? cur).bind (·.handleTable) with
  | some tab => received tab cur w.id [0, 1] 0 k
  | none => []

/-! ## Mailboxes -/

/-- What the mailbox results look at: the call of a thread and its mailbox. -/
def boxOf (k : Kernel) (tid : Nat) : Option (Option Call × List (Option Nat)) :=
  (k.thread? tid).map fun t => (t.call, t.ipcTransferHandles)

/-- Only the mailbox of `r` may change. -/
def BoxFrame (r : Nat) (k k' : Kernel) : Prop := ∀ tid, tid ≠ r → k'.boxOf tid = k.boxOf tid

section Boxes

variable {r : Nat} {k k' : Kernel}

instance : Std.Refl (BoxFrame r) := ⟨fun _ _ _ => rfl⟩

instance : IsTrans Kernel (BoxFrame r) := ⟨fun _ _ _ h h' tid ne => (h' tid ne).trans (h tid ne)⟩

theorem boxOf_of_steady (h : Steady k k') (tid : Nat) : k'.boxOf tid = k.boxOf tid := by
  unfold boxOf
  cases ht : k.thread? tid with
  | none =>
    have same := h tid
    rw [ht] at same
    rw [Option.map_eq_none_iff.mp same]
  | some t =>
    obtain ⟨s, ht'⟩ := h.find ht
    rw [ht']
    rfl

theorem boxOf_modify {f : Thread → Thread} (k : Kernel) (who : Nat) (hf : ∀ t, (f t).id = t.id)
    (call : ∀ t, (f t).call = t.call) (box : ∀ t, (f t).ipcTransferHandles = t.ipcTransferHandles)
    (tid : Nat) : (k.modifyThread who f).boxOf tid = k.boxOf tid := by
  unfold boxOf
  rw [thread?_modifyThread _ hf]
  split_ifs
  · simp [Option.map_map, Function.comp_def, call, box]
  · rfl

theorem boxOf_setStash (k : Kernel) (who i : Nat) (o : Option (KernelObject × Nat)) (tid : Nat) :
    (setStash who i o k).boxOf tid = k.boxOf tid :=
  boxOf_modify k who (by intro; rfl) (by intro; rfl) (by intro; rfl) tid

theorem boxOf_answerWaiter (w n : Nat) (k : Kernel) (tid : Nat) :
    (answerWaiter w n k).boxOf tid = k.boxOf tid := by
  have wake_box : ∀ t : Thread, t.wake.ipcTransferHandles = t.ipcTransferHandles := by
    intro t
    unfold Thread.wake
    split <;> rfl
  unfold boxOf
  rw [answerWaiter_thread?]
  split_ifs
  · simp [Option.map_map, Function.comp_def, wake_box]
  · rfl

theorem boxFrame_handles : HandleFrame (BoxFrame r) where
  counter _ _ _ _ := rfl
  table _ _ _ _ _ := rfl
  mm _ _ _ _ := rfl
  drop p k tid _ := boxOf_of_steady (steady_handles.drop p k) tid

theorem boxFrame_deliver (k : Kernel) (i hv : Nat) : BoxFrame r k (deliver r i hv k) := by
  intro tid ne
  unfold boxOf
  rw [deliver_thread?, if_neg ne]

theorem boxFrame_setStash (k : Kernel) (who i : Nat) (o : Option (KernelObject × Nat)) :
    BoxFrame r k (setStash who i o k) := fun tid _ => boxOf_setStash k who i o tid

/-- A routine that keeps every box but one, for any choice of that one, keeps them all. -/
theorem boxOf_of_frames (h : ∀ r, BoxFrame r k k') (tid : Nat) : k'.boxOf tid = k.boxOf tid :=
  h (tid + 1) tid (by omega)

theorem boxOf_deliver {t : Thread} (ht : k.thread? r = some t) (i hv : Nat) :
    (deliver r i hv k).boxOf r = some (t.call, t.ipcTransferHandles.set i (some hv)) := by
  unfold boxOf
  rw [deliver_thread?, if_pos rfl, ht]
  rfl

theorem boxOf_some {c : Option Call} {box : List (Option Nat)} (h : k.boxOf r = some (c, box)) :
    ∃ t, k.thread? r = some t ∧ t.call = c ∧ t.ipcTransferHandles = box := by
  obtain ⟨t, ht, eq⟩ := Option.map_eq_some_iff.mp h
  cases eq
  exact ⟨t, ht, rfl, rfl⟩

end Boxes

/-! ## The transfer loops fill the mailbox -/

section Loops

variable {r : Nat} {k k' : Kernel} {c : Option Call} {box : List (Option Nat)}

theorem attempt_eq_ok {α : Type} {m : KernelM α} {a : Except Status α}
    (h : Prog.attempt m k = .ok a k') :
    (∃ b, a = .ok b ∧ m k = .ok b k') ∨ ∃ e, a = .error e ∧ m k = .err e k' := by
  unfold Prog.attempt at h
  cases hm : m k with
  | ok b k₁ => rw [hm] at h; cases h; exact Or.inl ⟨b, rfl, rfl⟩
  | err e k₁ => rw [hm] at h; cases h; exact Or.inr ⟨e, rfl, rfl⟩
  | fault k₁ => rw [hm] at h; cases h

theorem boxOf_takeHandle {tab h : Nat} {o : Option (KernelObject × Nat)}
    (ran : takeHandle tab h k = .ok o k') (tid : Nat) : k'.boxOf tid = k.boxOf tid := by
  refine boxOf_of_frames (fun r => ?_) tid
  have frame := boxFrame_handles (r := r).calls.takeHandle tab h k
  rwa [ran] at frame

theorem boxOf_addHandle (k : Kernel) (tab rights : Nat) (obj : KernelObject) (tid : Nat) :
    (addHandle tab obj rights k).state.boxOf tid = k.boxOf tid :=
  boxOf_of_frames (fun r => boxFrame_handles (r := r).addHandle tab obj rights k) tid

/-- One handle more in the mailbox. -/
theorem box_next {hIdx hv n : Nat} {made : List Nat} (fit : hIdx + 1 + n ≤ box.length)
    (len : made.length ≤ n) :
    splice (box.set hIdx (some hv)) (hIdx + 1) (made.map some) =
      splice box hIdx ((hv :: made).map some) := by
  rw [set_eq_splice (by omega)]
  exact splice_splice (by simp; omega)

theorem injectHandles_box {tab rtab : Nat} (hs : List Nat) (hIdx : Nat)
    (hb : k.boxOf r = some (c, box)) (fit : hIdx + hs.length ≤ box.length)
    (ran : injectHandles tab rtab r hs hIdx k = .ok () k') :
    k'.boxOf r = some (c, splice box hIdx ((injected tab rtab r hs hIdx k).map some)) ∧
      (injected tab rtab r hs hIdx k).length ≤ hs.length := by
  induction hs generalizing hIdx k box with
  | nil =>
    cases ran
    exact ⟨by simpa [injected] using hb, le_rfl⟩
  | cons h hs ih =>
    rw [List.length_cons] at fit
    obtain ⟨o, k₁, took, rest⟩ := Prog.bind_eq_ok ran
    have hb₁ : k₁.boxOf r = some (c, box) := (boxOf_takeHandle took r).trans hb
    cases o with
    | none =>
      obtain ⟨box', len⟩ := ih hIdx hb₁ (by omega) rest
      simp only [injected, took]
      exact ⟨box', by simp; omega⟩
    | some o =>
      obtain ⟨obj, rights⟩ := o
      obtain ⟨res, k₂, tried, rest⟩ := Prog.bind_eq_ok rest
      have hb₂ := (boxOf_addHandle k₁ rtab rights obj r).trans hb₁
      rcases attempt_eq_ok tried with ⟨hv, rfl, added⟩ | ⟨e, rfl, failed⟩
      · rw [added, Outcome.state_ok] at hb₂
        obtain ⟨t, ht, hcall, hbox⟩ := boxOf_some hb₂
        have hb₃ : (deliver r hIdx hv k₂).boxOf r = some (c, box.set hIdx (some hv)) := by
          rw [boxOf_deliver ht, hcall, hbox]
        obtain ⟨box', len⟩ := ih (hIdx + 1) hb₃ (by simp; omega) rest
        simp only [injected, took, added]
        rw [box', box_next (n := hs.length) (by omega) len]
        exact ⟨rfl, by simpa using len⟩
      · rw [failed, Outcome.state_err] at hb₂
        obtain ⟨box', len⟩ := ih hIdx hb₂ (by omega) rest
        simp only [injected, took, failed]
        exact ⟨box', by simp; omega⟩

theorem receiveStash_box {tab sender : Nat} (is : List Nat) (hIdx : Nat)
    (hb : k.boxOf r = some (c, box)) (fit : hIdx + is.length ≤ box.length)
    (ran : receiveStash tab r sender is hIdx k = .ok () k') :
    k'.boxOf r = some (c, splice box hIdx ((received tab r sender is hIdx k).map some)) ∧
      (received tab r sender is hIdx k).length ≤ is.length := by
  induction is generalizing hIdx k box with
  | nil =>
    cases ran
    exact ⟨by simpa [received] using hb, le_rfl⟩
  | cons i is ih =>
    rw [List.length_cons] at fit
    simp only [receiveStash, Prog.bind_apply, Prog.get_apply] at ran
    cases found : k.stashed sender i with
    | none =>
      rw [found] at ran
      obtain ⟨box', len⟩ := ih hIdx hb (by omega) ran
      simp only [received, found]
      exact ⟨box', by simp; omega⟩
    | some o =>
      obtain ⟨obj, rights⟩ := o
      rw [found] at ran
      have hb₁ : (setStash sender i none k).boxOf r = some (c, box) :=
        (boxOf_setStash k sender i none r).trans hb
      obtain ⟨res, k₂, tried, rest⟩ := Prog.bind_eq_ok (m := Prog.attempt (addHandle tab obj rights))
        (s := setStash sender i none k) ran
      have hb₂ := (boxOf_addHandle (setStash sender i none k) tab rights obj r).trans hb₁
      rcases attempt_eq_ok tried with ⟨hv, rfl, added⟩ | ⟨e, rfl, failed⟩
      · rw [added, Outcome.state_ok] at hb₂
        obtain ⟨t, ht, hcall, hbox⟩ := boxOf_some hb₂
        have hb₃ : (deliver r hIdx hv k₂).boxOf r = some (c, box.set hIdx (some hv)) := by
          rw [boxOf_deliver ht, hcall, hbox]
        obtain ⟨box', len⟩ := ih (hIdx + 1) hb₃ (by simp; omega) rest
        simp only [received, found, added]
        rw [box', box_next (n := is.length) (by omega) len]
        exact ⟨rfl, by simpa using len⟩
      · rw [failed, Outcome.state_err] at hb₂
        obtain ⟨box', len⟩ := ih hIdx hb₂ (by omega) rest
        simp only [received, found, failed]
        exact ⟨box', by simp; omega⟩

end Loops

/-! ## Reporting -/

/-- What a read stores in a slice when its message has created the values `made`. -/
def report (made hs : List Nat) : List Nat := made.take hs.length ++ hs.drop made.length

/-- The mailbox holds `made` and nothing else, as far as a slice of `n` cells reaches. -/
def Holds (box : List (Option Nat)) (n : Nat) (made : List Nat) : Prop :=
  made.length ≤ box.length ∧ ∀ j < n, j < box.length → box[j]? = some made[j]?

theorem extractHandles_report {box : List (Option Nat)} {hs made : List Nat}
    (h : Holds box hs.length made) : (extractHandles box hs).1 = report made hs := by
  induction hs generalizing box made with
  | nil => cases box <;> simp [extractHandles, report]
  | cons hd hs ih =>
    cases box with
    | nil =>
      have : made = [] := List.length_eq_zero_iff.mp (Nat.le_zero.mp h.1)
      simp [extractHandles, report, this]
    | cons m box =>
      have first := h.2 0 (by simp) (by simp)
      cases made with
      | nil =>
        have rest : Holds box hs.length [] :=
          ⟨by simp, fun j hj hb => by simpa using h.2 (j + 1) (by simpa using hj) (by simpa using hb)⟩
        have hm : m = none := by simpa using first
        simp [extractHandles, ih rest, report, hm]
      | cons x made =>
        have rest : Holds box hs.length made :=
          ⟨by simpa using h.1, fun j hj hb => by
            simpa using h.2 (j + 1) (by simpa using hj) (by simpa using hb)⟩
        have hm : m = some x := by simpa using first
        simp [extractHandles, ih rest, report, hm]

theorem extractHandles_length (box : List (Option Nat)) (hs : List Nat) :
    (extractHandles box hs).2.length = box.length := by
  induction hs generalizing box with
  | nil => cases box <;> rfl
  | cons h hs ih =>
    cases box with
    | nil => rfl
    | cons m box => simp [extractHandles, ih]

/-- New values in a mailbox whose front was clear. -/
theorem Holds.fill {box : List (Option Nat)} {n : Nat} {made : List Nat} (clear : Holds box n [])
    (fit : made.length ≤ box.length) : Holds (splice box 0 (made.map some)) n made := by
  have hlen : (splice box 0 (made.map some)).length = box.length := splice_length (by simpa using fit)
  refine ⟨by omega, fun j hj hb => ?_⟩
  rw [splice_getElem? (by simpa using fit)]
  by_cases inside : j < made.length
  · simp [inside]
  · have none_made : made[j]? = none := List.getElem?_eq_none (by omega)
    rw [if_neg (by simp; omega), none_made]
    simpa using clear.2 j hj (by omega)

/-! ## Calls and mailboxes -/

section Calls

variable {k k' : Kernel} {cur : Nat} {t w : Thread} {data : List UInt8} {hs : List Nat}
  {c : Option Call} {box : List (Option Nat)}

theorem currentThread_eq_ok {u : Thread} (h : currentThread cur k = .ok u k') :
    k.thread? cur = some u ∧ k' = k := by
  unfold currentThread at h
  split at h
  · rename_i ht
    cases h
    exact ⟨ht, rfl⟩
  · cases h

theorem passHandles_box (hb : k.boxOf w.id = some (c, box)) (fit : 2 ≤ box.length)
    (ran : passHandles cur w hs k = .ok () k') :
    k'.boxOf w.id = some (c, splice box 0 ((passed cur w hs k).map some)) ∧
      (passed cur w hs k).length ≤ 2 := by
  obtain ⟨t, k₁, found, rest⟩ := Prog.bind_eq_ok ran
  obtain ⟨ht, rfl⟩ := currentThread_eq_ok found
  cases tab : t.handleTable with
  | none =>
    rw [tab] at rest
    cases rest
    simpa [passed, ht, tab] using hb
  | some tb =>
    cases rtab : w.handleTable with
    | none =>
      rw [tab, rtab] at rest
      cases rest
      simpa [passed, ht, tab, rtab] using hb
    | some rtb =>
      rw [tab, rtab] at rest
      have short : (hs.take 2).length ≤ 2 := by simp
      obtain ⟨box', len⟩ := injectHandles_box (hs.take 2) 0 hb (by omega) rest
      have eq : passed cur w hs k₁ = injected tb rtb w.id (hs.take 2) 0 k₁ := by
        simp [passed, ht, tab, rtab]
      rw [eq]
      exact ⟨box', by omega⟩

theorem collectHandles_box (hb : k.boxOf cur = some (c, box)) (fit : 2 ≤ box.length)
    (ran : collectHandles cur w.id k = .ok () k') :
    k'.boxOf cur = some (c, splice box 0 ((createdByRead cur w k).map some)) ∧
      (createdByRead cur w k).length ≤ 2 := by
  obtain ⟨t, k₁, found, rest⟩ := Prog.bind_eq_ok ran
  obtain ⟨ht, rfl⟩ := currentThread_eq_ok found
  cases tab : t.handleTable with
  | none =>
    rw [tab] at rest
    cases rest
    simpa [createdByRead, ht, tab] using hb
  | some tb =>
    rw [tab] at rest
    obtain ⟨box', len⟩ := receiveStash_box [0, 1] 0 hb (by simpa using fit) rest
    have eq : createdByRead cur w k₁ = received tb cur w.id [0, 1] 0 k₁ := by
      simp [createdByRead, ht, tab]
    rw [eq]
    exact ⟨box', len⟩

theorem sendTo_box (hb : k.boxOf w.id = some (c, box)) (fit : 2 ≤ box.length) {res : CallResult}
    (ran : sendTo cur w data hs k = .ok res k') :
    k'.boxOf w.id = some (c, splice box 0 ((createdByWrite cur w data hs k).map some)) ∧
      (createdByWrite cur w data hs k).length ≤ 2 ∧
      (∀ tid, tid ≠ w.id → k'.boxOf tid = k.boxOf tid) ∧
      ∀ side p tid, k'.InLine side p tid → k.InLine side p tid := by
  set k₁ := k.modifyThread w.id (·.fill (data.take (min data.length w.ipcBuf.length))) with hk₁
  have same₁ : ∀ tid, k₁.boxOf tid = k.boxOf tid :=
    boxOf_modify k w.id (by intro; rfl) (by intro; rfl) (by intro; rfl)
  obtain ⟨u, k₂, ran₂, last⟩ := Prog.bind_eq_ok (m := passHandles cur w hs) (s := k₁) ran
  cases last
  obtain ⟨box', len⟩ := passHandles_box ((same₁ w.id).trans hb) fit ran₂
  have frame : BoxFrame w.id k₁ (passHandles cur w hs k₁).state :=
    boxFrame_handles.calls.passHandles (fun k i hv => boxFrame_deliver k i hv) hs k₁
  have calm := calm_passHandles cur w hs k₁
  rw [ran₂] at frame calm
  refine ⟨(boxOf_answerWaiter _ _ _ _).trans box', len, fun tid ne => ?_, fun side p tid line => ?_⟩
  · rw [boxOf_answerWaiter, ← same₁ tid]
    exact frame tid ne
  · exact calm.lines side p tid (by simpa [InLine] using line)

theorem boxOf_finishRead {n : Nat} {buf : List UInt8} {res : CallResult}
    (hb : k.boxOf cur = some (c, box)) (ran : finishRead cur n buf hs k = .ok res k') :
    res = .read n buf (extractHandles box hs).1 ∧
      k'.boxOf cur = some (c, (extractHandles box hs).2) ∧
      (∀ tid, tid ≠ cur → k'.boxOf tid = k.boxOf tid) ∧ k'.chans = k.chans := by
  obtain ⟨t, ht, hc, hbox⟩ := boxOf_some hb
  rw [finishRead_ok ht] at ran
  cases ran
  rw [hbox]
  refine ⟨rfl, ?_, fun tid ne => ?_, rfl⟩
  · unfold boxOf
    rw [modifyThread_same _ (by intro; rfl) ht, Option.map_some, hc]
  · unfold boxOf
    rw [thread?_modifyThread _ (by intro; rfl), if_neg ne]

theorem receiveFrom_box (hb : k.boxOf cur = some (c, box)) (fit : 2 ≤ box.length) {res : CallResult}
    (ran : receiveFrom cur w data hs k = .ok res k') :
    (createdByRead cur w k).length ≤ 2 ∧
      ∃ n buf, res = .read n buf
          (extractHandles (splice box 0 ((createdByRead cur w k).map some)) hs).1 ∧
        (∃ box', k'.boxOf cur = some (c, box') ∧ box'.length = box.length) ∧
        (∀ tid, tid ≠ cur → k'.boxOf tid = k.boxOf tid) ∧
        ∀ side p tid, k'.InLine side p tid → k.InLine side p tid := by
  obtain ⟨u, k₂, ran₂, last⟩ := Prog.bind_eq_ok ran
  obtain ⟨box', len⟩ := collectHandles_box hb fit ran₂
  have frame : BoxFrame cur k (collectHandles cur w.id k).state :=
    boxFrame_handles.calls.collectHandles (fun k i hv => boxFrame_deliver k i hv)
      (fun k i o => boxFrame_setStash k _ i o) k
  have calm := calm_collectHandles cur w.id k
  rw [ran₂] at frame calm
  rw [← boxOf_answerWaiter w.id (min w.ipcBuf.length data.length)] at box'
  obtain ⟨rfl, own, others, chans⟩ := boxOf_finishRead box' last
  refine ⟨len, _, _, rfl, ⟨_, own, ?_⟩, fun tid ne => ?_, fun side p tid line => ?_⟩
  · rw [extractHandles_length, splice_length (by simp; omega)]
  · rw [others tid ne, boxOf_answerWaiter]
    exact frame tid ne
  · exact calm.lines side p tid (by simpa [InLine, chans] using line)

/-- The boxes and lines that a thread which goes to wait leaves alone. -/
structure Waited (cur : Nat) (k k' : Kernel) : Prop where
  boxes : ∀ tid, tid ≠ cur → k'.boxOf tid = k.boxOf tid
  lines : ∀ side p tid, tid ≠ cur → k'.InLine side p tid → k.InLine side p tid

theorem Waited.enqueue {side : Side} {p : Nat} {d d' : Channel} {call : Call}
    (hd : k.chans p = some d) (push : side.push d cur = some d') :
    Waited cur k (enqueue cur p d' call k) where
  boxes tid ne := by
    unfold boxOf
    rw [Kernel.enqueue, thread?_modifyThread _ (by intro; rfl), if_neg ne, setChan_thread?]
  lines side' q tid ne line := by
    obtain ⟨c', hc', mem⟩ := line
    rw [Kernel.enqueue, modifyThread_chans, setChan_chans] at hc'
    split_ifs at hc' with eq
    · subst eq
      cases hc'
      obtain ⟨perm, same⟩ := Side.push_perm push
      refine ⟨d, hd, ?_⟩
      by_cases own : side' = side
      · subst own
        exact (List.mem_cons.mp (perm.subset mem)).resolve_left ne
      · have other : side' = side.other := by cases side <;> cases side' <;> simp_all [Side.other]
        rw [other] at mem ⊢
        exact same ▸ mem
    · exact ⟨c', hc', mem⟩

theorem Waited.of_calm (cur : Nat) (h : ∀ r, BoxFrame r k k') (calm : Calm k k') : Waited cur k k' :=
  ⟨fun tid _ => boxOf_of_frames h tid, fun side p tid _ => calm.lines side p tid⟩

theorem Waited.of_modify (k : Kernel) {f : Thread → Thread} (hf : ∀ t, (f t).id = t.id) :
    Waited cur k (k.modifyThread cur f) where
  boxes tid ne := by
    unfold boxOf
    rw [thread?_modifyThread _ hf, if_neg ne]
  lines _ _ _ _ line := line

theorem Waited.trans {k'' : Kernel} (h : Waited cur k k') (h' : Waited cur k' k'') :
    Waited cur k k'' :=
  ⟨fun tid ne => (h'.boxes tid ne).trans (h.boxes tid ne),
    fun side p tid ne line => h.lines side p tid ne (h'.lines side p tid ne line)⟩

theorem boxOf_modifyThread {f : Thread → Thread} (ht : k.thread? cur = some t)
    (hf : ∀ t, (f t).id = t.id) :
    (k.modifyThread cur f).boxOf cur = some ((f t).call, (f t).ipcTransferHandles) := by
  unfold boxOf
  rw [modifyThread_same k hf ht]
  rfl

theorem abandonWrite_box {k₂ : Kernel} (tab : Option Nat) (before : Waited cur k k₂)
    (own : k₂.boxOf cur = some (none, box)) :
    (∀ res k', abandonWrite cur tab k₂ ≠ .ok res k') ∧
    ∀ e k', abandonWrite cur tab k₂ = .err e k' → Waited cur k k' ∧
      k'.boxOf cur = some (none, box) := by
  have frames : ∀ r, BoxFrame r k₂ (restoreMessage cur tab k₂).state := fun r =>
    boxFrame_handles.calls.restoreMessage (fun k i o => boxFrame_setStash k cur i o) tab k₂
  have calm := calm_restoreMessage cur tab k₂
  refine ⟨fun res k' ran => ?_, fun e k' ran => ?_⟩
  · obtain ⟨_, _, _, last⟩ := Prog.bind_eq_ok ran
    cases last
  · rcases Prog.bind_eq_err ran with stopped | ⟨u, k₃, ran₃, last⟩
    · rw [stopped] at frames calm
      exact ⟨before.trans (.of_calm cur frames calm), (boxOf_of_frames frames cur).trans own⟩
    · rw [ran₃] at frames calm
      cases last
      refine ⟨(before.trans (.of_calm cur frames calm)).trans (.of_modify k₃ fun _ => rfl), ?_⟩
      rw [boxOf_modify k₃ cur (by intro; rfl) (by intro; rfl) (by intro; rfl)]
      exact (boxOf_of_frames frames cur).trans own

theorem waitSender_box (ht : k.thread? cur = some t) (idle : t.call = none) (p : Nat)
    (data : List UInt8) (hs : List Nat) :
    (∀ res k', waitSender cur p data hs k = .ok res k' → Waited cur k k' ∧
      k'.boxOf cur = some (some (.write p), t.ipcTransferHandles)) ∧
    ∀ e k', waitSender cur p data hs k = .err e k' → Waited cur k k' ∧
      k'.boxOf cur = some (none, t.ipcTransferHandles) := by
  set k₁ := k.modifyThread cur (·.block data) with hk₁
  have first : Waited cur k k₁ := .of_modify k fun _ => rfl
  have own₁ : k₁.boxOf cur = some (none, t.ipcTransferHandles) := by
    rw [hk₁, boxOf_modifyThread ht (by intro; rfl), ← idle]
    rfl
  have stash : ∀ r, BoxFrame r k₁ (stashMessage cur hs k₁).state := fun r =>
    boxFrame_handles.calls.stashMessage (fun k i o => boxFrame_setStash k cur i o) hs k₁
  have calm := calm_stashMessage cur hs k₁
  constructor
  · intro res k' ran
    obtain ⟨tab, k₂, c, ran₂, hc, last⟩ := waitSender_ok ran
    rw [ran₂] at stash calm
    have before := first.trans (.of_calm cur stash calm)
    have own := (boxOf_of_frames stash cur).trans own₁
    rcases last with ⟨_, gave⟩ | ⟨c', push, -, rfl⟩
    · exact absurd gave ((abandonWrite_box tab before own).1 res k')
    · obtain ⟨t₃, ht₃, _, hbox⟩ := boxOf_some own
      refine ⟨before.trans (.enqueue hc (show Side.send.push c cur = some c' from push)), ?_⟩
      have found' : (k₂.setChan p (some c')).thread? cur = some t₃ := ht₃
      rw [Kernel.enqueue, boxOf_modifyThread found' (by intro; rfl), ← hbox]
  · intro e k' ran
    rcases waitSender_err ran with stopped | ⟨tab, k₂, c, ran₂, -, -, gave⟩
    · rw [stopped] at stash calm
      exact ⟨first.trans (.of_calm cur stash calm), (boxOf_of_frames stash cur).trans own₁⟩
    · rw [ran₂] at stash calm
      have before := first.trans (.of_calm cur stash calm)
      have own := (boxOf_of_frames stash cur).trans own₁
      exact (abandonWrite_box tab before own).2 e k' gave

theorem waitReceiver_box (own : k.boxOf cur = some (none, box)) (p : Nat) (call : Call) :
    (∀ res k', waitReceiver cur p call k = .ok res k' → res = .blocked ∧ Waited cur k k' ∧
      k'.boxOf cur = some (some call, box)) ∧
    ∀ e k', waitReceiver cur p call k = .err e k' → Waited cur k k' ∧
      k'.boxOf cur = some (none, box) := by
  obtain ⟨t, ht, _, hbox⟩ := boxOf_some own
  constructor
  · intro res k' ran
    obtain ⟨c, k₁, found, last⟩ := Prog.bind_eq_ok ran
    obtain ⟨hc, rfl⟩ := deref_eq_ok found
    cases push : c.pushReceiver cur with
    | none => rw [push] at last; cases last
    | some c' =>
      rw [push] at last
      cases last
      refine ⟨rfl, .enqueue hc (show Side.recv.push c cur = some c' from push), ?_⟩
      have found' : (k₁.setChan p (some c')).thread? cur = some t := ht
      rw [Kernel.enqueue, boxOf_modifyThread found' (by intro; rfl), ← hbox]
  · intro e k' ran
    rcases Prog.bind_eq_err ran with bad | ⟨c, k₁, found, last⟩
    · exact absurd bad (noErr_deref p _ _ _)
    · obtain ⟨hc, rfl⟩ := deref_eq_ok found
      cases push : c.pushReceiver cur with
      | none =>
        rw [push] at last
        cases last
        refine ⟨.of_modify k₁ fun _ => rfl, ?_⟩
        rw [boxOf_modify k₁ cur (by intro; rfl) (by intro; rfl) (by intro; rfl), own]
      | some c' => rw [push] at last; cases last

end Calls

end Kernel

end CapsuleOS
