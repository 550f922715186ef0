import CapsuleOS.Ipc.Mailbox

/-!
# Received handles in every run

Runs of the channel machine with a ghost: for each thread, the handle values created by the message
that its last read consumed. Every read that returns leaves a receipt, which says what the slice
holds and what it should hold.
-/
namespace CapsuleOS

open Lib

/-- The slice a waiting read will store handles in. -/
def Call.slice : Call → Option (List Nat)
  | .read _ hs => some hs
  | .readWithTimeout _ hs _ => some hs
  | .write _ => none

/-- The channel machine with the values created for each thread. -/
structure Inbox where
  kernel : Kernel
  made : Nat → List Nat

/-- A read of the thread `tid` has returned: the slice it was given, the values its message created,
and the slice it returned. -/
structure Receipt where
  tid : Nat
  handles : List Nat
  made : List Nat
  out : List Nat
  deriving DecidableEq

/-- The slice holds the values of this message and is otherwise unchanged. -/
def Receipt.Right (r : Receipt) : Prop := r.out = Kernel.report r.made r.handles

instance (r : Receipt) : Decidable r.Right := inferInstanceAs (Decidable (r.out = _))

namespace Inbox

open Kernel

def createdFor (k : Kernel) (cur p : Nat) : List Nat :=
  match k.served .send p with
  | some (w, k₀) => createdByRead cur w k₀
  | none => []

/-- The ghost after an operation. -/
def nextMade (s : Inbox) : ChannelOp → Nat → List Nat
  | .write cur p data hs =>
    match s.kernel.served .recv p with
    | some (w, k₀) => Function.update s.made w.id (createdByWrite cur w data hs k₀)
    | none => s.made
  | .read cur p _ _ => Function.update s.made cur (createdFor s.kernel cur p)
  | .readWithTimeout cur p _ _ _ => Function.update s.made cur (createdFor s.kernel cur p)
  | _ => s.made

/-- The reading thread and its slice, if the operation is a read or the rest of one. -/
def reader (k : Kernel) : ChannelOp → Option (Nat × List Nat)
  | .read cur _ _ hs => some (cur, hs)
  | .readWithTimeout cur _ _ hs _ => some (cur, hs)
  | .resume cur => ((k.thread? cur).bind (·.call)).bind fun c => c.slice.map fun hs => (cur, hs)
  | _ => none

def receipt (s : Inbox) (op : ChannelOp) : Option Receipt :=
  match reader s.kernel op, op.exec s.kernel with
  | some (cur, hs), .ok (some (.read _ _ out)) _ => some ⟨cur, hs, s.nextMade op cur, out⟩
  | _, _ => none

/-- Runs whose operations all satisfy `C`, with the receipts of their reads. -/
inductive Run (C : ChannelOp → Kernel → Prop) (s : Inbox) : List Receipt → Inbox → Prop where
  | nil : Run C s [] s
  | step {rs : List Receipt} {s' : Inbox} {op : ChannelOp} {k' : Kernel} (run : Run C s rs s')
      (cond : C op s'.kernel) (steps : op.Steps s'.kernel k') :
      Run C s (rs ++ (s'.receipt op).toList) ⟨k', s'.nextMade op⟩

/-- The caller's mailbox is empty as far as the slice reaches, wherever a read does not clear it: in
a read that finds a sender, and in a timed read. -/
def Careful (op : ChannelOp) (k : Kernel) : Prop :=
  match op with
  | .read cur p _ hs => (k.served .send p).isSome →
      ∀ t, k.thread? cur = some t → Holds t.ipcTransferHandles hs.length []
  | .readWithTimeout cur _ _ hs _ =>
      ∀ t, k.thread? cur = some t → Holds t.ipcTransferHandles hs.length []
  | _ => True

/-- Threads in no call, with mailboxes of the size the source gives them. -/
structure Start (s : Inbox) : Prop where
  standing : s.kernel.Standing
  idle : ∀ tid t, s.kernel.thread? tid = some t → t.call = none
  size : ∀ tid t, s.kernel.thread? tid = some t → t.ipcTransferHandles.length = 4

/-! ## The invariant -/

/-- What is known of one thread: in a read, the mailbox holds what its message has created. -/
def BoxOk (made : List Nat) (c : Option Call) (box : List (Option Nat)) : Prop :=
  box.length = 4 ∧ ∀ call hs, c = some call → call.slice = some hs → Holds box hs.length made

structure Good (s : Inbox) : Prop where
  standing : s.kernel.Standing
  boxes : ∀ tid c box, s.kernel.boxOf tid = some (c, box) → BoxOk (s.made tid) c box
  unserved : ∀ p tid, s.kernel.InLine .recv p tid → s.made tid = []

variable {s : Inbox} {op : ChannelOp} {k' : Kernel}

theorem Start.good (h : Start s) : Good s where
  standing := h.standing
  boxes tid c box hb := by
    obtain ⟨t, ht, rfl, rfl⟩ := boxOf_some hb
    refine ⟨h.size tid t ht, fun call hs hc => ?_⟩
    rw [h.idle tid t ht] at hc
    cases hc
  unserved p tid line := by
    obtain ⟨t, c, ht, _, hc, _⟩ := h.standing.waiting .recv p tid line
    rw [h.idle tid t ht] at hc
    cases hc

/-- A step that changes one thread, one ghost and no other line. -/
theorem Good.touch (g : Good s) (who : Nat) {made : Nat → List Nat} (standing : k'.Standing)
    (boxes : ∀ tid, tid ≠ who → k'.boxOf tid = s.kernel.boxOf tid)
    (lines : ∀ p tid, tid ≠ who → k'.InLine .recv p tid → s.kernel.InLine .recv p tid)
    (others : ∀ tid, tid ≠ who → made tid = s.made tid)
    (own : ∀ c box, k'.boxOf who = some (c, box) → BoxOk (made who) c box)
    (line : ∀ p, k'.InLine .recv p who → made who = []) : Good ⟨k', made⟩ where
  standing := standing
  boxes tid c box hb := by
    by_cases eq : tid = who
    · subst eq
      exact own c box hb
    · simp only [others tid eq]
      exact g.boxes tid c box (boxes tid eq ▸ hb)
  unserved p tid inline := by
    by_cases eq : tid = who
    · subst eq
      exact line p inline
    · simp only [others tid eq]
      exact g.unserved p tid (lines p tid eq inline)

theorem Good.length (g : Good s) {tid : Nat} {t : Thread} (ht : s.kernel.thread? tid = some t) :
    t.ipcTransferHandles.length = 4 :=
  (g.boxes tid t.call t.ipcTransferHandles (by simp [boxOf, ht])).1

theorem BoxOk.of_idle {made : List Nat} {box : List (Option Nat)} (h : box.length = 4) :
    BoxOk made none box := ⟨h, fun _ _ hc => nomatch hc⟩

theorem BoxOk.of_write {made : List Nat} {box : List (Option Nat)} {p : Nat} (h : box.length = 4) :
    BoxOk made (some (.write p)) box := by
  refine ⟨h, fun call hs hc hslice => ?_⟩
  cases hc
  cases hslice

/-! ## Steps -/

section Steps

variable {cur p : Nat} {data : List UInt8} {hs : List Nat} {t : Thread}

theorem good_write (g : Good s) (ht : s.kernel.thread? cur = some t) (idle : t.call = none)
    (ret : ChannelOp.Returns (channelWrite cur p data hs s.kernel) k') :
    Good ⟨k', s.nextMade (.write cur p data hs)⟩ := by
  have standing' : k'.Standing := by
    have kept : (channelWrite cur p data hs s.kernel).state.Standing :=
      channelWrite_standing g.standing ht idle
    rcases ret with ⟨_, ran⟩ | ⟨_, ran⟩ <;> rwa [ran] at kept
  have meets : Meets s.kernel .recv cur p (fun r => sendTo cur r data hs)
      (waitSender cur p data hs) (channelWrite cur p data hs s.kernel) :=
    meet_result g.standing ht
  have size := g.length ht
  generalize channelWrite cur p data hs s.kernel = out at meets ret
  cases meets with
  | failed e nobody =>
    have eq : k' = s.kernel := by rcases ret with ⟨_, ran⟩ | ⟨_, ran⟩ <;> cases ran; rfl
    subst eq
    simpa [nextMade, nobody] using g
  | faulted => rcases ret with ⟨_, ran⟩ | ⟨_, ran⟩ <;> cases ran
  | @serve _ d d' q w call _ _ _ hd pop hw _ hcall stands found =>
    rcases ret with ⟨res, ran⟩ | ⟨e, ran⟩
    · have line : s.kernel.InLine .recv q w.id :=
        ⟨d, hd, (Side.pop_perm pop).1.symm.subset List.mem_cons_self⟩
      have hb : (s.kernel.setChan q (some d')).boxOf w.id = some (w.call, w.ipcTransferHandles) := by
        simp [boxOf, hw]
      have ok := g.boxes w.id w.call w.ipcTransferHandles hb
      have size_w := ok.1
      obtain ⟨own, len, others, lines⟩ := sendTo_box hb (by omega) ran
      obtain ⟨popped, out⟩ := g.standing.pop hd pop
      have back : ∀ p' tid, (s.kernel.setChan q (some d')).InLine .recv p' tid →
          s.kernel.InLine .recv p' tid := by
        intro p' tid ⟨c', hc', mem⟩
        rw [setChan_chans] at hc'
        split_ifs at hc' with eq
        · subst eq
          cases hc'
          exact ⟨d, hd, (Side.pop_perm pop).1.symm.subset (List.mem_cons_of_mem _ mem)⟩
        · exact ⟨c', hc', mem⟩
      simp only [nextMade, found]
      refine g.touch w.id standing' others (fun p' tid _ l => back p' tid (lines _ _ _ l))
        (fun tid ne => Function.update_of_ne ne _ _) (fun c box hbox => ?_) fun p' l => ?_
      · rw [own] at hbox
        cases hbox
        rw [Function.update_self]
        have size' : (splice w.ipcTransferHandles 0
            ((createdByWrite cur w data hs (s.kernel.setChan q (some d'))).map some)).length = 4 := by
          rw [splice_length (by simp; omega), ok.1]
        refine ⟨size', fun call' hs' hc' hslice => ?_⟩
        have clear := ok.2 call' hs' hc' hslice
        rw [g.unserved q w.id line] at clear
        exact clear.fill (by omega)
      · exact absurd (lines _ _ _ l) (out .recv p')
    · exact absurd ran (sendTo_noErr (k := s.kernel.setChan q (some d')) ht e)
  | wait _ _ _ _ _ nobody =>
    obtain ⟨waits, fails⟩ := waitSender_box ht idle p data hs
    simp only [nextMade, nobody]
    rcases ret with ⟨res, ran⟩ | ⟨e, ran⟩
    · obtain ⟨waited, own⟩ := waits res k' ran
      refine g.touch cur standing' waited.boxes (fun p' tid ne => waited.lines .recv p' tid ne)
        (fun _ _ => rfl) (fun c box hbox => ?_) fun p' l => ?_
      · rw [own] at hbox
        cases hbox
        exact .of_write size
      · obtain ⟨t', c, ht', _, hc, stands⟩ := standing'.waiting .recv p' cur l
        simp [boxOf, ht', hc] at own
        obtain ⟨rfl, _⟩ := own
        cases stands
    · obtain ⟨waited, own⟩ := fails e k' ran
      refine g.touch cur standing' waited.boxes (fun p' tid ne => waited.lines .recv p' tid ne)
        (fun _ _ => rfl) (fun c box hbox => ?_) fun p' l => ?_
      · rw [own] at hbox
        cases hbox
        exact .of_idle size
      · obtain ⟨t', ht', idle', _⟩ := boxOf_some own
        exact absurd l (standing'.not_inLine ht' idle' .recv p')

/-- A read that takes the message of a waiting sender. -/
theorem good_receive {q : Nat} {w : Thread} {d d' : Channel} {res : CallResult} (g : Good s)
    (ht : s.kernel.thread? cur = some t) (idle : t.call = none)
    (clear : Holds t.ipcTransferHandles hs.length []) (hd : s.kernel.chans q = some d)
    (pop : Side.send.pop d = some (w.id, d')) (standing' : k'.Standing)
    (ran : receiveFrom cur w data hs (s.kernel.setChan q (some d')) = .ok res k') :
    Good ⟨k', Function.update s.made cur (createdByRead cur w (s.kernel.setChan q (some d')))⟩ ∧
      ∃ n buf, res = .read n buf
        (report (createdByRead cur w (s.kernel.setChan q (some d'))) hs) := by
  have size := g.length ht
  have hb : (s.kernel.setChan q (some d')).boxOf cur = some (none, t.ipcTransferHandles) := by
    simp [boxOf, ht, idle]
  obtain ⟨len, n, buf, rfl, ⟨box', own, size'⟩, others, lines⟩ := receiveFrom_box hb (by omega) ran
  refine ⟨g.touch cur standing' others (fun p' tid _ l => ?_)
    (fun tid ne => Function.update_of_ne ne _ _) (fun c box hbox => ?_) fun p' l => ?_, n, buf, ?_⟩
  · obtain ⟨c', hc', mem⟩ := lines _ _ _ l
    rw [setChan_chans] at hc'
    split_ifs at hc' with eq
    · subst eq
      cases hc'
      have same : Side.recv.queue d' = Side.recv.queue d := (Side.pop_perm pop).2
      exact ⟨d, hd, same ▸ mem⟩
    · exact ⟨c', hc', mem⟩
  · rw [own] at hbox
    cases hbox
    exact .of_idle (size'.trans size)
  · obtain ⟨t', ht', idle', _⟩ := boxOf_some own
    exact absurd l (standing'.not_inLine ht' idle' .recv p')
  · rw [extractHandles_report (clear.fill (by omega))]

/-- A read that waits, with a mailbox that is clear as far as its slice reaches. -/
theorem good_await {call : Call} {f : Thread → Thread} (g : Good s)
    (ht : s.kernel.thread? cur = some t) (hf : ∀ t, (f t).id = t.id) (idle : (f t).call = none)
    (size : (f t).ipcTransferHandles.length = 4) (slice : call.slice = some hs)
    (clear : Holds (f t).ipcTransferHandles hs.length []) (standing' : k'.Standing)
    (ret : ChannelOp.Returns (waitReceiver cur p call (s.kernel.modifyThread cur f)) k') :
    Good ⟨k', Function.update s.made cur []⟩ := by
  have own₁ : (s.kernel.modifyThread cur f).boxOf cur = some (none, (f t).ipcTransferHandles) := by
    rw [boxOf_modifyThread ht hf, idle]
  have first : Waited cur s.kernel (s.kernel.modifyThread cur f) := .of_modify s.kernel hf
  obtain ⟨waits, fails⟩ := waitReceiver_box own₁ p call
  obtain ⟨c, waited, own, c_eq⟩ : ∃ c, Waited cur s.kernel k' ∧
      k'.boxOf cur = some (c, (f t).ipcTransferHandles) ∧ (c = none ∨ c = some call) := by
    rcases ret with ⟨res, ran⟩ | ⟨e, ran⟩
    · obtain ⟨_, waited, own⟩ := waits res k' ran
      exact ⟨_, first.trans waited, own, Or.inr rfl⟩
    · obtain ⟨waited, own⟩ := fails e k' ran
      exact ⟨_, first.trans waited, own, Or.inl rfl⟩
  refine g.touch cur standing' waited.boxes (fun p' tid ne => waited.lines .recv p' tid ne)
    (fun tid ne => Function.update_of_ne ne _ _) (fun c' box hbox => ?_)
    fun p' _ => Function.update_self _ _ _
  rw [own] at hbox
  cases hbox
  rw [Function.update_self]
  refine ⟨size, fun call' hs' hc' hslice => ?_⟩
  rcases c_eq with rfl | rfl
  · cases hc'
  · cases hc'
    rw [slice] at hslice
    cases hslice
    exact clear

theorem clear_clearMailbox (t : Thread) (n : Nat) : Holds t.clearMailbox.ipcTransferHandles n [] := by
  refine ⟨by simp, fun j _ hj => ?_⟩
  have bound : j < t.ipcTransferHandles.length := by simpa [Thread.clearMailbox] using hj
  simp [Thread.clearMailbox, bound]

/-- A read of either kind, before its rest. -/
theorem good_readWith {wait : KernelM CallResult} (g : Good s) (ht : s.kernel.thread? cur = some t)
    (idle : t.call = none)
    (clear : (s.kernel.served .send p).isSome → Holds t.ipcTransferHandles hs.length [])
    (standing' : k'.Standing) (ret : ChannelOp.Returns (readWith cur p data hs wait s.kernel) k')
    (waits : ∀ k', s.kernel.served .send p = none → ChannelOp.Returns (wait s.kernel) k' →
      k'.Standing → Good ⟨k', Function.update s.made cur []⟩)
    (silent : ∀ res k', wait s.kernel = .ok res k' → res = .blocked) :
    Good ⟨k', Function.update s.made cur (createdFor s.kernel cur p)⟩ ∧
      ∀ n buf out k'', readWith cur p data hs wait s.kernel = .ok (.read n buf out) k'' →
        out = report (createdFor s.kernel cur p) hs := by
  have meets : Meets s.kernel .send cur p (fun w => receiveFrom cur w data hs) wait
      (readWith cur p data hs wait s.kernel) := meet_result g.standing ht
  generalize readWith cur p data hs wait s.kernel = out at meets ret
  cases meets with
  | failed e nobody =>
    have eq : k' = s.kernel := by rcases ret with ⟨_, ran⟩ | ⟨_, ran⟩ <;> cases ran; rfl
    subst eq
    refine ⟨?_, fun _ _ _ _ bad => by cases bad⟩
    simp only [createdFor, nobody]
    refine g.touch cur g.standing (fun _ _ => rfl) (fun _ _ _ => id)
      (fun tid ne => Function.update_of_ne ne _ _) (fun c box hbox => ?_)
      fun _ _ => Function.update_self _ _ _
    obtain ⟨t', ht', rfl, rfl⟩ := boxOf_some hbox
    rw [ht] at ht'
    cases ht'
    rw [idle]
    exact .of_idle (g.length ht)
  | faulted => rcases ret with ⟨_, ran⟩ | ⟨_, ran⟩ <;> cases ran
  | @serve _ d d' q w call _ _ _ hd pop hw _ hcall stands found =>
    simp only [createdFor, found]
    rcases ret with ⟨res, ran⟩ | ⟨e, ran⟩
    · obtain ⟨good, n, buf, rfl⟩ :=
        good_receive g ht idle (clear (by simp [found])) hd pop standing' ran
      refine ⟨good, fun n' buf' out' k'' ran' => ?_⟩
      rw [ran] at ran'
      cases ran'
      rfl
    · exact absurd ran (receiveFrom_noErr (k := s.kernel.setChan q (some d')) ht e)
  | wait _ _ _ _ _ nobody =>
    simp only [createdFor, nobody]
    refine ⟨waits k' nobody ret standing', fun n buf out k'' ran => ?_⟩
    cases silent _ _ ran

/-- The end of a read: the slice gets the front of the mailbox. -/
theorem finishRead_box {k k' : Kernel} {box : List (Option Nat)} {n : Nat} {buf : List UInt8}
    (own : k.boxOf cur = some (none, box))
    (ret : ChannelOp.Returns (finishRead cur n buf hs k) k') :
    (∃ box', k'.boxOf cur = some (none, box') ∧ box'.length = box.length) ∧ Waited cur k k' ∧
      ∀ n' buf' out k'', finishRead cur n buf hs k = .ok (.read n' buf' out) k'' →
        out = (extractHandles box hs).1 := by
  obtain ⟨t, ht, _, _⟩ := boxOf_some own
  have ran : ∃ res, finishRead cur n buf hs k = .ok res k' := by
    rw [finishRead_ok ht] at ret ⊢
    rcases ret with ⟨res, ran⟩ | ⟨_, ran⟩
    · exact ⟨res, ran⟩
    · cases ran
  obtain ⟨res, ran⟩ := ran
  obtain ⟨rfl, own', others, chans⟩ := boxOf_finishRead own ran
  refine ⟨⟨_, own', extractHandles_length _ _⟩, ⟨others, fun side p tid _ l => ?_⟩,
    fun n' buf' out k'' ran' => ?_⟩
  · simpa [InLine, chans] using l
  · rw [ran] at ran'
    cases ran'
    rfl

/-- A timed read past its deadline leaves its line. -/
theorem timeout_waited {k : Kernel} {c : Channel} (hc : k.chans p = some c) :
    Waited cur k (k.setChan p (some (c.removeReceiver cur))) := by
  refine ⟨fun _ _ => rfl, fun side q tid _ ⟨c', hc', mem⟩ => ?_⟩
  rw [setChan_chans] at hc'
  split_ifs at hc' with eq
  · subst eq
    cases hc'
    refine ⟨c, hc, ?_⟩
    cases side with
    | send => rwa [Side.queue, c.removeReceiver_send] at mem
    | recv => exact (c.removeReceiver_recv cur).1.subset mem
  · exact ⟨c', hc', mem⟩

/-- The rest of a call ends with the thread in no call; a read reports its mailbox. -/
theorem resume_box {k k' : Kernel} {call : Call} (ht : k.thread? cur = some t)
    (hc : t.call = some call) (ret : ChannelOp.Returns (resume cur k) k') :
    (∃ box, k'.boxOf cur = some (none, box) ∧ box.length = t.ipcTransferHandles.length) ∧
      Waited cur k k' ∧
      ∀ n buf out k'', resume cur k = .ok (.read n buf out) k'' →
        ∃ hs, call.slice = some hs ∧ out = (extractHandles t.ipcTransferHandles hs).1 := by
  have first : Waited cur k (wakeUp cur k) := .of_modify k fun _ => rfl
  have own₁ : (wakeUp cur k).boxOf cur = some (none, t.ipcTransferHandles) := by
    rw [wakeUp, boxOf_modifyThread ht (by intro; rfl)]
  cases call with
  | write p =>
    rw [resume_write ht hc] at ret ⊢
    have eq : k' = wakeUp cur k := by rcases ret with ⟨_, ran⟩ | ⟨_, ran⟩ <;> cases ran; rfl
    subst eq
    exact ⟨⟨_, own₁, rfl⟩, first, fun _ _ _ _ bad => by cases bad⟩
  | read p hs =>
    rw [resume_read ht hc, ← finishRead_ok (wakeUp_thread? ht)] at ret ⊢
    obtain ⟨own, waited, reported⟩ := finishRead_box own₁ ret
    exact ⟨own, first.trans waited, fun n buf out k'' ran => ⟨hs, rfl, reported n buf out k'' ran⟩⟩
  | readWithTimeout p hs dl =>
    rw [resume_readWithTimeout ht hc] at ret ⊢
    by_cases late : dl.any ((wakeUp cur k).ticks ≥ ·)
    · cases hself : (wakeUp cur k).chans p with
      | none =>
        rcases ret with ⟨_, ran⟩ | ⟨_, ran⟩ <;>
          simp [finishTimedRead, Prog.bind_apply, late, deref, hself] at ran
      | some c =>
        have ran : finishTimedRead cur p dl t.ipcActualLen t.ipcBuf hs (wakeUp cur k) =
            .err .timedOut (((wakeUp cur k).setChan p (some (c.removeReceiver cur))).modifyThread cur
              (·.giveUp)) := by
          simp [finishTimedRead, Prog.bind_apply, late, deref, hself]
        rw [ran] at ret ⊢
        have eq : k' = ((wakeUp cur k).setChan p (some (c.removeReceiver cur))).modifyThread cur
            (·.giveUp) := by rcases ret with ⟨_, bad⟩ | ⟨_, bad⟩ <;> cases bad; rfl
        have found : ((wakeUp cur k).setChan p (some (c.removeReceiver cur))).thread? cur =
            some { t with state := .running, call := none } := wakeUp_thread? ht
        subst eq
        refine ⟨⟨t.ipcTransferHandles, ?_, rfl⟩, (first.trans (timeout_waited hself)).trans
          (.of_modify _ Thread.giveUp_id), fun _ _ _ _ bad => by cases bad⟩
        rw [boxOf_modifyThread found Thread.giveUp_id]
        rfl
    · have ran₀ : finishTimedRead cur p dl t.ipcActualLen t.ipcBuf hs (wakeUp cur k) =
          finishRead cur t.ipcActualLen t.ipcBuf hs (wakeUp cur k) := by
        simp [finishTimedRead, Prog.bind_apply, late]
      rw [ran₀] at ret ⊢
      obtain ⟨own, waited, reported⟩ := finishRead_box own₁ ret
      exact ⟨own, first.trans waited, fun n buf out k'' ran => ⟨hs, rfl, reported n buf out k'' ran⟩⟩

theorem good_resume {call : Call} (g : Good s) (ht : s.kernel.thread? cur = some t)
    (hc : t.call = some call) (standing' : k'.Standing)
    (ret : ChannelOp.Returns (resume cur s.kernel) k') :
    Good ⟨k', s.made⟩ ∧ ∀ n buf out k'', resume cur s.kernel = .ok (.read n buf out) k'' →
      ∃ hs, call.slice = some hs ∧ out = report (s.made cur) hs := by
  obtain ⟨⟨box, own, size⟩, waited, reported⟩ := resume_box ht hc ret
  refine ⟨g.touch cur standing' waited.boxes (fun p tid ne => waited.lines .recv p tid ne)
    (fun _ _ => rfl) (fun c box' hbox => ?_) fun p l => ?_, fun n buf out k'' ran => ?_⟩
  · rw [own] at hbox
    cases hbox
    exact .of_idle (size.trans (g.length ht))
  · obtain ⟨t', ht', idle', _⟩ := boxOf_some own
    exact absurd l (standing'.not_inLine ht' idle' .recv p)
  · obtain ⟨hs, slice, rfl⟩ := reported n buf out k'' ran
    have ok := g.boxes cur t.call t.ipcTransferHandles (by simp [boxOf, ht])
    exact ⟨hs, slice, extractHandles_report (ok.2 call hs hc slice)⟩

/-- Operations that run no call of a thread. -/
theorem good_quiet (g : Good s) (standing' : k'.Standing)
    (boxes : ∀ tid, k'.boxOf tid = s.kernel.boxOf tid)
    (lines : ∀ side p tid, k'.InLine side p tid → s.kernel.InLine side p tid) : Good ⟨k', s.made⟩ where
  standing := standing'
  boxes tid c box hb := g.boxes tid c box (boxes tid ▸ hb)
  unserved p tid l := g.unserved p tid (lines .recv p tid l)

theorem good_read (g : Good s) (ht : s.kernel.thread? cur = some t) (idle : t.call = none)
    (clear : (s.kernel.served .send p).isSome → Holds t.ipcTransferHandles hs.length [])
    (standing' : k'.Standing) (ret : ChannelOp.Returns (channelRead cur p data hs s.kernel) k') :
    Good ⟨k', Function.update s.made cur (createdFor s.kernel cur p)⟩ ∧
      ∀ n buf out k'', channelRead cur p data hs s.kernel = .ok (.read n buf out) k'' →
        out = report (createdFor s.kernel cur p) hs := by
  have size : ((t.block data).clearMailbox).ipcTransferHandles.length = 4 := by
    simpa [Thread.clearMailbox, Thread.block] using g.length ht
  have own : (s.kernel.modifyThread cur fun t => (t.block data).clearMailbox).boxOf cur =
      some (none, ((t.block data).clearMailbox).ipcTransferHandles) := by
    rw [boxOf_modifyThread ht (by intro; rfl), ← idle]
    rfl
  refine good_readWith g ht idle clear standing' ret (fun k' _ ret' st' => ?_) fun res k' ran => ?_
  · exact good_await (f := fun t => (t.block data).clearMailbox) g ht (fun _ => rfl) idle size
      (show (Call.read p hs).slice = some hs from rfl) (clear_clearMailbox _ _) st' ret'
  · exact ((waitReceiver_box own p (.read p hs)).1 res k' ran).1

theorem good_readWithTimeout {ms : Nat} (g : Good s) (ht : s.kernel.thread? cur = some t)
    (idle : t.call = none) (clear : Holds t.ipcTransferHandles hs.length [])
    (standing' : k'.Standing)
    (ret : ChannelOp.Returns (channelReadWithTimeout cur p data hs ms s.kernel) k') :
    Good ⟨k', Function.update s.made cur (createdFor s.kernel cur p)⟩ ∧
      ∀ n buf out k'', channelReadWithTimeout cur p data hs ms s.kernel = .ok (.read n buf out) k'' →
        out = report (createdFor s.kernel cur p) hs := by
  have own : (s.kernel.modifyThread cur (·.block data)).boxOf cur =
      some (none, (t.block data).ipcTransferHandles) := by
    rw [boxOf_modifyThread ht (by intro; rfl), ← idle]
    rfl
  refine good_readWith g ht idle (fun _ => clear) standing' ret (fun k' _ ret' st' => ?_)
    fun res k' ran => ?_
  · have size : (t.block data).ipcTransferHandles.length = 4 := by
      simpa [Thread.block] using g.length ht
    exact good_await (f := (·.block data)) g ht (fun _ => rfl) idle size rfl clear st' ret'
  · exact ((waitReceiver_box own p _).1 res k' ran).1

theorem boxOf_sysClose (k : Kernel) (tab hv tid : Nat) :
    (sysClose tab hv k).state.boxOf tid = k.boxOf tid :=
  boxOf_of_steady (((steady_handles.removeWithRights tab hv).bind fun o =>
    steady_handles.dropObject o.1) k) tid

theorem calm_sysClose (tab hv : Nat) : Prog.Within Calm (sysClose tab hv) :=
  (calm_handles.removeWithRights tab hv).bind fun o => calm_handles.dropObject o.1

end Steps

theorem mem_receipt {r : Receipt} (hr : r ∈ s.receipt op) :
    ∃ cur hs n buf out k'', reader s.kernel op = some (cur, hs) ∧
      op.exec s.kernel = .ok (some (.read n buf out)) k'' ∧ r = ⟨cur, hs, s.nextMade op cur, out⟩ := by
  unfold receipt at hr
  split at hr
  · rename_i cur hs n buf out k'' found ran
    cases hr
    exact ⟨cur, hs, n, buf, out, k'', found, ran, rfl⟩
  · cases hr

theorem exec_some {m : KernelM CallResult} {k k' : Kernel} {res : CallResult}
    (h : (m >>= fun a => pure (some a)) k = .ok (some res) k') : m k = .ok res k' := by
  obtain ⟨a, k₁, ran, last⟩ := Prog.bind_eq_ok h
  cases last
  exact ran

/-- A step that meets the condition keeps the invariant, and its receipt is right. -/
theorem Good.step (g : Good s) (careful : Careful op s.kernel) (steps : op.Steps s.kernel k') :
    Good ⟨k', s.nextMade op⟩ ∧ ∀ r ∈ s.receipt op, r.Right := by
  have standing' := steps.standing g.standing
  have enabled := steps.enabled
  have ret := steps.returns
  cases op with
  | write cur p data hs =>
    obtain ⟨t, ht, idle⟩ := enabled
    refine ⟨good_write g ht idle ret.of_map, fun r hr => ?_⟩
    obtain ⟨_, _, _, _, _, _, bad, _⟩ := mem_receipt hr
    cases bad
  | read cur p data hs =>
    obtain ⟨t, ht, idle⟩ := enabled
    obtain ⟨good, right⟩ :=
      good_read g ht idle (fun found => careful found t ht) standing' ret.of_map
    refine ⟨good, fun r hr => ?_⟩
    obtain ⟨_, _, n, buf, out, k'', found, ran, rfl⟩ := mem_receipt hr
    cases found
    exact (right n buf out k'' (exec_some ran)).trans (by simp [nextMade])
  | readWithTimeout cur p data hs ms =>
    obtain ⟨t, ht, idle⟩ := enabled
    obtain ⟨good, right⟩ :=
      good_readWithTimeout g ht idle (careful t ht) standing' ret.of_map
    refine ⟨good, fun r hr => ?_⟩
    obtain ⟨_, _, n, buf, out, k'', found, ran, rfl⟩ := mem_receipt hr
    cases found
    exact (right n buf out k'' (exec_some ran)).trans (by simp [nextMade])
  | resume cur =>
    obtain ⟨t, ht, busy, _⟩ := enabled
    obtain ⟨call, hc⟩ := Option.ne_none_iff_exists'.mp busy
    obtain ⟨good, right⟩ := good_resume g ht hc standing' ret.of_map
    refine ⟨good, fun r hr => ?_⟩
    obtain ⟨_, _, n, buf, out, k'', found, ran, rfl⟩ := mem_receipt hr
    obtain ⟨hs, slice, rfl⟩ := right n buf out k'' (exec_some ran)
    simp only [reader, ht, hc, Option.bind_some, slice, Option.map_some] at found
    cases found
    rfl
  | close tab hv =>
    have calm := calm_sysClose tab hv s.kernel
    have boxes := boxOf_sysClose s.kernel tab hv
    have eq : (sysClose tab hv s.kernel).state = k' := by
      rcases ret.of_map with ⟨_, ran⟩ | ⟨_, ran⟩ <;> rw [ran] <;> rfl
    rw [eq] at calm boxes
    refine ⟨good_quiet g standing' boxes calm.lines, fun r hr => ?_⟩
    obtain ⟨_, _, _, _, _, _, bad, _⟩ := mem_receipt hr
    cases bad
  | tick =>
    rcases ret with ⟨_, ran⟩ | ⟨_, ran⟩
    · cases ran
      refine ⟨good_quiet g standing' (fun _ => rfl) fun _ _ _ => id, fun r hr => ?_⟩
      obtain ⟨_, _, _, _, _, _, bad, _⟩ := mem_receipt hr
      cases bad
    · cases ran

theorem Run.good {rs : List Receipt} {s' : Inbox} (start : Start s) (run : Run Careful s rs s') :
    Good s' ∧ ∀ r ∈ rs, r.Right := by
  induction run with
  | nil => exact ⟨start.good, fun r hr => by cases hr⟩
  | step _ cond steps ih =>
    obtain ⟨good, right⟩ := ih.1.step cond steps
    refine ⟨good, fun r hr => ?_⟩
    rcases List.mem_append.mp hr with old | new
    · exact ih.2 r old
    · exact right r (Option.mem_toList.mp new)

end Inbox

/-- In every run in which a read that does not clear its mailbox finds it empty as far as its slice
reaches, every read reports exactly the handles of the message it consumed. -/
theorem received_handles_of_careful {s s' : Inbox} {rs : List Receipt} (start : s.Start)
    (run : Inbox.Run Inbox.Careful s rs s') : ∀ r ∈ rs, r.Right :=
  (run.good start).2

namespace Inbox

/-- The small machine before any call. -/
def demoStart : Inbox := ⟨Kernel.demo (.port 9), fun _ => []⟩

def after (s : Inbox) (op : ChannelOp) : Inbox := ⟨(op.exec s.kernel).state, s.nextMade op⟩

/-- The first thread sends its handle and waits. -/
def demoSent : Inbox := demoStart.after (.write 1 100 [7] [5])

theorem demoStart_start : demoStart.Start where
  standing := Kernel.demo_standing _
  idle tid t ht := by rcases Kernel.demo_threads ht with rfl | rfl <;> rfl
  size tid t ht := by rcases Kernel.demo_threads ht with rfl | rfl <;> rfl

theorem demoSent_steps : (ChannelOp.write 1 100 [7] [5]).Steps demoStart.kernel demoSent.kernel :=
  .ok ⟨_, rfl, rfl⟩ (some .blocked) rfl

end Inbox

/-- The second thread of the small machine reads the handle into a slice of one. -/
theorem received_handles_of_careful_demo : Receipt.Right ⟨2, [0], [1000], [1000]⟩ := by
  have sent : Inbox.Run Inbox.Careful Inbox.demoStart [] Inbox.demoSent :=
    .step .nil trivial Inbox.demoSent_steps
  have empty : Inbox.Careful (.read 2 200 [0] [0]) Inbox.demoSent.kernel := by
    intro _ t ht
    cases ht
    exact ⟨by decide, by decide⟩
  have read : (ChannelOp.read 2 200 [0] [0]).Steps Inbox.demoSent.kernel _ :=
    .ok ⟨_, rfl, rfl⟩ (some (.read 1 [7] [1000])) rfl
  exact received_handles_of_careful Inbox.demoStart_start (.step sent empty read) _
    (List.mem_append_right _ (Option.mem_toList.mpr rfl))

namespace Inbox

/-- The second thread reads without room for the handle; the first wakes up and sends again, this
time without handles. -/
def demoTaken : Inbox := demoSent.after (.read 2 200 [0] [])

def demoWoken : Inbox := demoTaken.after (.resume 1)

def demoAgain : Inbox := demoWoken.after (.write 1 100 [8] [])

theorem demoAgain_run : Run (fun _ _ => True) demoStart [⟨2, [], [1000], []⟩] demoAgain := by
  have taken : (ChannelOp.read 2 200 [0] []).Steps demoSent.kernel demoTaken.kernel :=
    .ok ⟨_, rfl, rfl⟩ (some (.read 1 [7] [])) rfl
  have woken : (ChannelOp.resume 1).Steps demoTaken.kernel demoWoken.kernel :=
    .ok ⟨_, rfl, Option.some_ne_none _, Or.inl rfl⟩ (some (.wrote 1)) rfl
  have again : (ChannelOp.write 1 100 [8] []).Steps demoWoken.kernel demoAgain.kernel :=
    .ok ⟨_, rfl, rfl⟩ (some .blocked) rfl
  have sent : Run (fun _ _ => True) demoStart [] demoSent := .step .nil trivial demoSent_steps
  exact ((sent.step trivial taken).step trivial woken).step trivial again

end Inbox

/-- There, a read without room for the handle leaves its value behind, and the next read, of a
message without handles, reports it. -/
theorem stale_handle_reported :
    ∃ rs s', Inbox.demoStart.Start ∧ Inbox.Run (fun _ _ => True) Inbox.demoStart rs s' ∧
      ∃ r ∈ rs, r.made = [] ∧ r.out = [1000] ∧ ¬ r.Right := by
  have last : (ChannelOp.read 2 200 [0] [0]).Steps Inbox.demoAgain.kernel _ :=
    .ok ⟨_, rfl, rfl⟩ (some (.read 1 [8] [1000])) rfl
  refine ⟨_, _, Inbox.demoStart_start, Inbox.demoAgain_run.step trivial last,
    ⟨2, [0], [], [1000]⟩, ?_, rfl, rfl, by decide⟩
  exact List.mem_append_right _ (Option.mem_toList.mpr rfl)

end CapsuleOS
