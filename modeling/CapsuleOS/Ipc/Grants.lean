import CapsuleOS.Ipc.PeersRun
import CapsuleOS.Lib.Runs

/-!
# Rights are not amplified

What a handle may do is fixed when its object is entered. Transfer, duplication and the return of a
stash carry the rights along, and the only handles that are made anew are those of the endpoints that
the calls create. So for any set of pairs of an object and its rights that is closed under both
(`Closed`), a machine in which all handles are in the set stays in it, whichever calls the threads make
and in whatever order (`granted_run`).
-/
namespace CapsuleOS

open Lib

/-- Pairs of an object and the rights to it. -/
abbrev Grants := KernelObject → Nat → Prop

/-- Duplicates have the rights of the original, and the endpoints that are made may be read and
written. -/
structure Grants.Closed (G : Grants) (made : Nat → Prop) : Prop where
  clone : ∀ v r, G (.vmo v) r → G (.vmo v.clone) r
  endpoint : ∀ p, made p → G (.channel p) Kernel.channelRights

/-- All handles, in tables and in transit, are granted. -/
structure Kernel.Granted (G : Grants) (k : Kernel) : Prop where
  tables : ∀ tab, ∀ s ∈ (k.tables tab).occupants, G s.object s.rights
  stashes : ∀ t ∈ k.threads.occupants, ∀ o r, some (o, r) ∈ t.ipcTransferSlots → G o r

namespace Kernel

variable {G : Grants} {made : Nat → Prop} {k k' : Kernel}

/-- The routine keeps to what is granted. -/
def Confines (G : Grants) (k k' : Kernel) : Prop := k.Granted G → k'.Granted G

instance : Std.Refl (Confines G) := ⟨fun _ h => h⟩

instance : IsTrans Kernel (Confines G) := ⟨fun _ _ _ h h' g => h' (h g)⟩

/-! ## Steps that move no handle -/

theorem Confines.of_same (tables : k'.tables = k.tables) (threads : k'.threads = k.threads) :
    Confines G k k' := fun h => by
  refine ⟨?_, ?_⟩
  · rw [tables]
    exact h.tables
  · rw [threads]
    exact h.stashes

theorem mem_modify {α : Type} {n : Nat} {s : Slots α n} {p : α → Bool} {f : α → α} {a : α}
    (mem : a ∈ (s.modify p f).occupants) : a ∈ s.occupants ∨ ∃ b ∈ s.occupants, a = f b := by
  rcases s.modify_occupants p f with ⟨_, same⟩ | ⟨l, b, r, whole, _, _, changed⟩
  · rw [same] at mem
    exact Or.inl mem
  · rw [changed] at mem
    rw [whole]
    simp only [List.mem_append, List.mem_cons] at mem ⊢
    rcases mem with mem | rfl | mem
    · exact Or.inl (Or.inl mem)
    · exact Or.inr ⟨b, Or.inr (Or.inl rfl), rfl⟩
    · exact Or.inl (Or.inr (Or.inr mem))

/-- A change of threads that enters nothing in a stash. -/
theorem confines_modify {p : Thread → Bool} {f : Thread → Thread}
    (sub : ∀ t o r, some (o, r) ∈ (f t).ipcTransferSlots → some (o, r) ∈ t.ipcTransferSlots) :
    Confines G k { k with threads := k.threads.modify p f } := fun h => by
  refine ⟨h.tables, fun t mem o r inside => ?_⟩
  rcases mem_modify mem with old | ⟨u, old, rfl⟩
  · exact h.stashes t old o r inside
  · exact h.stashes u old o r (sub u o r inside)

theorem confines_modifyThread (tid : Nat) {f : Thread → Thread}
    (same : ∀ t, (f t).ipcTransferSlots = t.ipcTransferSlots) (k : Kernel) :
    Confines G k (k.modifyThread tid f) :=
  confines_modify fun t o r mem => by rwa [same] at mem

theorem confines_wakeAll (k : Kernel) (tids : List Nat) : Confines G k (k.wakeAll tids) := by
  induction tids generalizing k with
  | nil => exact Std.Refl.refl k
  | cons tid tids ih =>
    have first : Confines G k (k.wakeThread tid) := by
      unfold wakeThread
      split
      · exact Std.Refl.refl k
      · have woken : Confines G k
            { k with threads := k.threads.modify (wakes tid) (·.setState .ready) } :=
          confines_modify fun _ _ _ mem => mem
        refine IsTrans.trans _ _ _ woken (.of_same ?_ (requeueCurrent_threads _ _))
        unfold requeueCurrent pushQueue
        split
        · split <;> rfl
        · rfl
    exact IsTrans.trans _ _ _ first (ih _)

theorem confines_setChan (k : Kernel) (p : Nat) (c : Option Channel) : Confines G k (k.setChan p c) :=
  .of_same rfl rfl

theorem confines_dropObject (o : KernelObject) : Prog.Within (Confines G) (dropObject o) := by
  have mm : ∀ m : MmM Unit, Prog.Within (Confines G) (onMm m) := fun m k => by
    unfold onMm Prog.zoom
    split <;> exact .of_same rfl rfl
  cases o with
  | vmo v => exact mm _
  | vmar r => exact mm _
  | channel p =>
    exact within_drop (fun p => within_closeChannel confines_setChan confines_wakeAll p)
      (fun k p => confines_setChan k p none) p
  | port _ => exact .pure ()
  | process _ => exact .pure ()
  | thread _ => exact .pure ()

/-! ## The handle table -/

/-- The routine returns a value with `Q`, in a state in which all handles are granted; they are granted
as well where it stops otherwise. -/
def Granting (G : Grants) {α : Type} (m : KernelM α) (k : Kernel) (Q : α → Prop) : Prop :=
  Prog.Post m k (fun a k' => k'.Granted G ∧ Q a) (fun k' => k'.Granted G)

theorem granting_within {α : Type} {m : KernelM α} (h : Prog.Within (Confines G) m) (g : k.Granted G) :
    Granting G m k fun _ => True :=
  (Prog.Post.of_within h).mono (fun _ _ c => ⟨c g, trivial⟩) fun _ c => c g

theorem Granted.setTable (g : k.Granted G) {tab : Nat} {t : HandleTable}
    (ok : ∀ s ∈ t.occupants, G s.object s.rights) : (k.setTable tab t).Granted G := by
  refine ⟨fun tab' s mem => ?_, g.stashes⟩
  by_cases eq : tab' = tab
  · subst eq
    simp only [Kernel.setTable, Function.update_self] at mem
    exact ok s mem
  · simp only [Kernel.setTable, Function.update_of_ne eq] at mem
    exact g.tables tab' s mem

theorem granting_putSlot (g : k.Granted G) (tab : Nat) {s : HandleSlot} (ok : G s.object s.rights) :
    Granting G (putSlot tab s) k fun _ => True := by
  unfold putSlot
  cases put : (k.tables tab).insert? s with
  | some t =>
    refine .of_ok ⟨(), k.setTable tab t, by simp [put], g.setTable fun s' mem => ?_, trivial⟩
    rcases List.mem_cons.mp ((Slots.insert?_perm put).mem_iff.mp mem) with rfl | old
    · exact ok
    · exact g.tables tab s' old
  | none =>
    have stop : Granting G (do dropObject s.object; Prog.throw .noMemory : KernelM Unit) k
        fun _ => True :=
      (granting_within (confines_dropObject _) g).bind fun _ _ h => .throw h.1
    exact .congr (by simp [put]) stop

theorem granting_addHandle (g : k.Granted G) (tab : Nat) {o : KernelObject} {rights : Nat}
    (ok : G o rights) : Granting G (addHandle tab o rights) k fun _ => True := by
  have next : Prog.Within (Confines G) nextHandleValue := fun k => .of_same rfl rfl
  refine (granting_within next g).bind fun hv k₁ h => ?_
  exact (granting_putSlot h.1 tab ok).bind fun _ k₂ h' => .pure ⟨h'.1, trivial⟩

theorem granting_findSlot (g : k.Granted G) (tab hv required : Nat) :
    Granting G (findSlot tab hv required) k fun s => G s.object s.rights := by
  unfold findSlot
  cases found : (k.tables tab).find? (·.value == hv) with
  | none => exact .of_err (by simp [found]; rfl) g
  | some s =>
    rw [Slots.find?_eq] at found
    have mem := List.mem_of_find?_eq_some found
    rw [← Slots.find?_eq] at found
    by_cases check : checkRights s.rights required = true
    · exact .of_ok ⟨s, k, by simp [found, check], g, g.tables tab s mem⟩
    · exact .of_err (by simp [found, check]; rfl) g

theorem granting_duplicateHandle (cl : G.Closed made) (g : k.Granted G) (tab hv required : Nat) :
    Granting G (duplicateHandle tab hv required) k fun _ => True := by
  refine (granting_findSlot g tab hv required).bind fun s k₁ h => ?_
  obtain ⟨g₁, ok⟩ := h
  cases eq : s.object with
  | vmo v =>
    rw [eq] at ok
    exact granting_addHandle g₁ tab (cl.clone v s.rights ok)
  | vmar _ => exact .throw g₁
  | channel _ => exact .throw g₁
  | port _ => exact .throw g₁
  | process _ => exact .throw g₁
  | thread _ => exact .throw g₁

theorem granting_removeWithRights (g : k.Granted G) (tab hv : Nat) :
    Granting G (removeWithRights tab hv) k fun o => G o.1 o.2 := by
  unfold removeWithRights
  cases taken : (k.tables tab).take? (·.value == hv) with
  | none => exact .of_err (by simp [taken]; rfl) g
  | some r =>
    obtain ⟨s, t⟩ := r
    have perm := Slots.take?_perm taken
    exact .of_ok ⟨(s.object, s.rights), k.setTable tab t, by simp [taken],
      g.setTable fun s' mem => g.tables tab s' (perm.mem_iff.mpr (by simp [mem])),
      g.tables tab s (perm.mem_iff.mpr (by simp))⟩

theorem granting_takeHandle (cl : G.Closed made) (g : k.Granted G) (tab hv : Nat) :
    Granting G (takeHandle tab hv) k fun r => ∀ o, r = some o → G o.1 o.2 := by
  refine Prog.Post.attempt_bind (granting_duplicateHandle cl g tab hv 0) (fun source k₁ h => ?_)
    (fun e k₁ h => ?_) fun _ h => h
  all_goals
    refine Prog.Post.attempt_bind (granting_removeWithRights (by first | exact h.1 | exact h) tab _)
      (fun o k₂ h' => ?_) (fun e k₂ h' => ?_) fun _ h' => h'
    · exact .pure ⟨h'.1, fun _ eq => by cases eq; exact h'.2⟩
    · exact .pure ⟨h', fun _ eq => by cases eq⟩

/-! ## Transfer -/

theorem confines_deliver (tid i hv : Nat) (k : Kernel) : Confines G k (deliver tid i hv k) :=
  confines_modifyThread tid (by intro; rfl) k

theorem confines_emptyStash (tid i : Nat) (k : Kernel) : Confines G k (setStash tid i none k) :=
  confines_modify fun t o r mem => (List.mem_or_eq_of_mem_set mem).resolve_right (by simp)

theorem Granted.stash (g : k.Granted G) {o : KernelObject × Nat} (ok : G o.1 o.2) (tid i : Nat) :
    (setStash tid i (some o) k).Granted G := by
  refine ⟨g.tables, fun t mem obj r inside => ?_⟩
  rcases mem_modify mem with old | ⟨u, old, rfl⟩
  · exact g.stashes t old obj r inside
  · rcases List.mem_or_eq_of_mem_set inside with here | new
    · exact g.stashes u old obj r here
    · cases new
      exact ok

theorem Granted.stashed (g : k.Granted G) {tid i : Nat} {o : KernelObject × Nat}
    (h : k.stashed tid i = some o) : G o.1 o.2 := by
  obtain ⟨t, found, cell⟩ := Option.bind_eq_some_iff.mp h
  exact g.stashes t (thread?_mem k found) o.1 o.2
    (List.mem_of_getElem? (Option.join_eq_some_iff.mp cell))

theorem granting_modify {f : Kernel → Kernel} (h : (f k).Granted G) :
    Granting G (Prog.modify f) k fun _ => True := .of_ok ⟨(), f k, rfl, h, trivial⟩

theorem granting_injectHandles (cl : G.Closed made) (g : k.Granted G) (tab rtab receiver : Nat)
    (hs : List Nat) (hIdx : Nat) :
    Granting G (injectHandles tab rtab receiver hs hIdx) k fun _ => True := by
  induction hs generalizing k hIdx with
  | nil => exact .pure ⟨g, trivial⟩
  | cons hd hs ih =>
    refine (granting_takeHandle cl g tab hd).bind fun r k₁ h => ?_
    obtain ⟨g₁, ok⟩ := h
    cases r with
    | none => exact ih g₁ hIdx
    | some o =>
      refine Prog.Post.attempt_bind (granting_addHandle g₁ rtab (ok o rfl)) (fun hv k₂ h => ?_)
        (fun e k₂ h => ih h hIdx) fun _ h => h
      exact (granting_modify (confines_deliver receiver hIdx hv k₂ h.1)).bind fun _ k₃ h' => ih h'.1 _

theorem granting_stashHandles (cl : G.Closed made) (g : k.Granted G) (tab cur : Nat) (hs : List Nat)
    (hIdx : Nat) : Granting G (stashHandles tab cur hs hIdx) k fun _ => True := by
  induction hs generalizing k hIdx with
  | nil => exact .pure ⟨g, trivial⟩
  | cons hd hs ih =>
    refine (granting_takeHandle cl g tab hd).bind fun r k₁ h => ?_
    obtain ⟨g₁, ok⟩ := h
    cases r with
    | none => exact ih g₁ hIdx
    | some o =>
      exact (granting_modify (g₁.stash (ok o rfl) cur hIdx)).bind fun _ k₂ h' => ih h'.1 _

theorem granting_receiveStash (g : k.Granted G) (tab cur sender : Nat) (is : List Nat) (hIdx : Nat) :
    Granting G (receiveStash tab cur sender is hIdx) k fun _ => True := by
  induction is generalizing k hIdx with
  | nil => exact .pure ⟨g, trivial⟩
  | cons i is ih =>
    refine Prog.Post.get_bind ?_
    cases stash : k.stashed sender i with
    | none => exact ih g hIdx
    | some o =>
      refine (granting_modify (confines_emptyStash sender i k g)).bind fun _ k₁ h => ?_
      refine Prog.Post.attempt_bind (granting_addHandle h.1 tab (g.stashed stash)) (fun hv k₂ h => ?_)
        (fun e k₂ h => ih h hIdx) fun _ h => h
      exact (granting_modify (confines_deliver cur hIdx hv k₂ h.1)).bind fun _ k₃ h' => ih h'.1 _

theorem granting_restoreStash (g : k.Granted G) (tab cur : Nat) (is : List Nat) :
    Granting G (restoreStash tab cur is) k fun _ => True := by
  induction is generalizing k with
  | nil => exact .pure ⟨g, trivial⟩
  | cons i is ih =>
    refine Prog.Post.get_bind ?_
    cases stash : k.stashed cur i with
    | none => exact ih g
    | some o =>
      refine (granting_modify (confines_emptyStash cur i k g)).bind fun _ k₁ h => ?_
      exact Prog.Post.attempt_bind (granting_addHandle h.1 tab (g.stashed stash))
        (fun hv k₂ h => ih h.1) (fun e k₂ h => ih h) fun _ h => h

theorem confines_clearStash (cur : Nat) (is : List Nat) :
    Prog.Within (Confines G) (clearStash cur is) := by
  induction is with
  | nil => exact .pure ()
  | cons i is ih =>
    refine Prog.Within.get.bind fun k => ?_
    cases k.stashed cur i with
    | none => exact ih
    | some o =>
      exact (Prog.Within.modify fun k => confines_emptyStash cur i k).bind fun _ =>
        (confines_dropObject o.1).bind fun _ => ih

/-! ## The calls -/

theorem confines_answerWaiter (w n : Nat) (k : Kernel) : Confines G k (answerWaiter w n k) :=
  IsTrans.trans _ _ _ (confines_modifyThread w (by intro; rfl) k)
    (confines_wakeAll (k.modifyThread w fun t => { t with ipcActualLen := n }) [w])

theorem confines_enqueue (cur self : Nat) (c : Channel) (call : Call) (k : Kernel) :
    Confines G k (enqueue cur self c call k) :=
  IsTrans.trans _ _ _ (confines_setChan k self (some c)) (confines_modifyThread cur (by intro; rfl) _)

theorem confines_finishRead (cur n : Nat) (buf : List UInt8) (hs : List Nat) :
    Prog.Within (Confines G) (finishRead cur n buf hs) :=
  (within_currentThread cur).bind fun _ =>
    (Prog.Within.modify (confines_modifyThread cur (by intro; rfl))).bind fun _ => .pure _

theorem granting_sendTo (cl : G.Closed made) (g : k.Granted G) (cur : Nat) (w : Thread) (data : List UInt8)
    (hs : List Nat) : Granting G (sendTo cur w data hs) k fun _ => True := by
  refine (granting_modify (confines_modifyThread w.id (by intro; rfl) k g)).bind fun _ k₁ h => ?_
  have pass : Granting G (passHandles cur w hs) k₁ fun _ => True := by
    refine (granting_within (within_currentThread cur) h.1).bind fun t k₂ h => ?_
    cases t.handleTable with
    | none => exact .pure ⟨h.1, trivial⟩
    | some tab =>
      cases w.handleTable with
      | none => exact .pure ⟨h.1, trivial⟩
      | some rtab => exact granting_injectHandles cl h.1 tab rtab w.id (hs.take 2) 0
  refine pass.bind fun _ k₂ h => ?_
  exact (granting_modify (confines_answerWaiter w.id _ k₂ h.1)).bind fun _ k₃ h => .pure ⟨h.1, trivial⟩

theorem granting_receiveFrom (g : k.Granted G) (cur : Nat) (sender : Thread) (data : List UInt8)
    (hs : List Nat) : Granting G (receiveFrom cur sender data hs) k fun _ => True := by
  have collect : Granting G (collectHandles cur sender.id) k fun _ => True := by
    refine (granting_within (within_currentThread cur) g).bind fun t k₁ h => ?_
    cases t.handleTable with
    | none => exact .pure ⟨h.1, trivial⟩
    | some tab => exact granting_receiveStash h.1 tab cur sender.id [0, 1] 0
  refine collect.bind fun _ k₁ h => ?_
  refine (granting_modify (confines_answerWaiter sender.id _ k₁ h.1)).bind fun _ k₂ h => ?_
  exact granting_within (confines_finishRead cur _ _ hs) h.1

theorem granting_meet (g : k.Granted G) {side : Side} {cur self : Nat}
    {serve : Thread → KernelM CallResult} {wait : KernelM CallResult}
    (hs : ∀ t k, k.Granted G → Granting G (serve t) k fun _ => True)
    (hw : ∀ k, k.Granted G → Granting G wait k fun _ => True) :
    Granting G (meet side cur self serve wait) k fun _ => True := by
  have taken : ∀ q, Prog.Within (Confines G) (takeWaiter side q) := by
    intro q
    refine (within_deref q).bind fun c => ?_
    cases side.pop c with
    | none => exact .pure _
    | some r =>
      exact (Prog.Within.modify fun k => confines_setChan k q _).bind fun _ =>
        Prog.Within.get.bind fun _ => .pure _
  refine (granting_within (within_deref self) g).bind fun c k₁ h => ?_
  split_ifs
  · exact .throw h.1
  · refine (granting_within (within_currentThread cur) h.1).bind fun _ k₂ h => ?_
    cases c.peer with
    | none => exact .throw h.1
    | some q =>
      refine (granting_within (taken q) h.1).bind fun w k₃ h => ?_
      cases w with
      | none => exact hw k₃ h.1
      | some w => exact hs w k₃ h.1

theorem confines_waitReceiver (cur self : Nat) (call : Call) :
    Prog.Within (Confines G) (waitReceiver cur self call) := by
  refine (within_deref self).bind fun c => ?_
  cases c.pushReceiver cur with
  | none =>
    exact (Prog.Within.modify (confines_modifyThread cur (by intro; rfl))).bind fun _ => .throw _
  | some c' => exact (Prog.Within.modify (confines_enqueue cur self c' call)).bind fun _ => .pure _

theorem granting_waitSender (cl : G.Closed made) (g : k.Granted G) (cur self : Nat) (data : List UInt8)
    (hs : List Nat) : Granting G (waitSender cur self data hs) k fun _ => True := by
  refine (granting_modify (confines_modifyThread cur (by intro; rfl) k g)).bind fun _ k₁ h => ?_
  have stash : Granting G (stashMessage cur hs) k₁ fun _ => True := by
    refine (granting_within (confines_clearStash cur [0, 1]) h.1).bind fun _ k₂ h => ?_
    refine (granting_within (within_currentThread cur) h.1).bind fun t k₃ h => ?_
    cases t.handleTable with
    | none => exact .pure ⟨h.1, trivial⟩
    | some tab =>
      exact (granting_stashHandles cl h.1 tab cur (hs.take 2) 0).bind fun _ k₄ h => .pure ⟨h.1, trivial⟩
  refine stash.bind fun tab k₂ h₂ => ?_
  refine (granting_within (within_deref self) h₂.1).bind fun c k₃ h₃ => ?_
  have g₃ := h₃.1
  cases c.pushSender cur with
  | none =>
    have restore : Granting G (restoreMessage cur tab) k₃ fun _ => True := by
      cases tab with
      | none => exact .pure ⟨g₃, trivial⟩
      | some tab => exact granting_restoreStash g₃ tab cur [0, 1]
    refine restore.bind fun _ k₄ h => ?_
    exact (granting_modify (confines_modifyThread cur (by intro; rfl) k₄ h.1)).bind fun _ k₅ h =>
      .throw h.1
  | some c' =>
    exact (granting_modify (confines_enqueue cur self c' _ k₃ g₃)).bind fun _ k₄ h => .pure ⟨h.1, trivial⟩

theorem granting_channelWrite (cl : G.Closed made) (g : k.Granted G) (cur self : Nat) (data : List UInt8)
    (hs : List Nat) : Granting G (channelWrite cur self data hs) k fun _ => True :=
  granting_meet g (fun w _ g => granting_sendTo cl g cur w data hs) fun _ g =>
    granting_waitSender cl g cur self data hs

theorem granting_channelRead (g : k.Granted G) (cur self : Nat) (data : List UInt8) (hs : List Nat) :
    Granting G (channelRead cur self data hs) k fun _ => True := by
  refine granting_meet g (fun w _ g => granting_receiveFrom g cur w data hs) fun k₁ g₁ => ?_
  exact granting_within ((Prog.Within.modify (confines_modifyThread cur (by intro; rfl))).bind fun _ =>
    confines_waitReceiver cur self _) g₁

theorem granting_channelReadWithTimeout (g : k.Granted G) (cur self : Nat) (data : List UInt8)
    (hs : List Nat) (ms : Nat) :
    Granting G (channelReadWithTimeout cur self data hs ms) k fun _ => True := by
  refine granting_meet g (fun w _ g => granting_receiveFrom g cur w data hs) fun k₁ g₁ => ?_
  exact granting_within ((Prog.Within.modify (confines_modifyThread cur (by intro; rfl))).bind fun _ =>
    Prog.Within.get.bind fun _ => confines_waitReceiver cur self _) g₁

theorem confines_resume (cur : Nat) : Prog.Within (Confines G) (resume cur) := by
  refine (within_currentThread cur).bind fun t => ?_
  refine (Prog.Within.modify (confines_modifyThread cur (by intro; rfl))).bind fun _ => ?_
  cases t.call with
  | none => exact .fault
  | some call =>
    cases call with
    | write _ => exact .pure _
    | read _ hs => exact confines_finishRead cur _ _ hs
    | readWithTimeout self hs deadline =>
      refine Prog.Within.get.bind fun k => ?_
      split_ifs
      · refine (within_deref self).bind fun c => (Prog.Within.modify fun k => ?_).bind fun _ => .throw _
        refine IsTrans.trans _ _ _ (confines_setChan k self _) (confines_modifyThread cur (fun t => ?_) _)
        unfold Thread.giveUp
        split <;> rfl
      · exact confines_finishRead cur _ _ hs

theorem granting_createPair (cl : G.Closed made) (g : k.Granted G) (tab : Nat) {a₀ a₁ : Nat}
    (new : ∀ a ∈ [a₀, a₁], made a) :
    Granting G (createPair tab a₀ a₁) k fun _ => True := by
  have channel : Prog.Within (Confines G) newChannel := fun k => .of_same rfl rfl
  have add : ∀ (k : Kernel) a c, a ∈ [a₀, a₁] → k.Granted G →
      Granting G (addChannel tab a c) k fun _ => True := fun k a c mem g =>
    (granting_modify (confines_setChan k a (some c) g)).bind fun _ k₁ h =>
      granting_addHandle h.1 tab (cl.endpoint a (new a mem))
  have withChannel : ∀ h, Prog.Within (Confines G) (withChannel tab h channelRights) := by
    intro h
    refine (within_findSlot tab h _).bind fun s => ?_
    cases s.object <;> first | exact .pure _ | exact .throw _
  have setPeer : ∀ h q, Prog.Within (Confines G) (setPeer tab h q) := fun h q =>
    (withChannel h).bind fun p => (within_deref p).bind fun c =>
      .modify fun k => confines_setChan k p _
  refine (granting_within channel g).bind fun c₀ k₁ h =>
    (granting_within channel h.1).bind fun c₁ k₂ h => ?_
  refine (add k₂ a₀ c₀ (by simp) h.1).bind fun h₀ k₃ h =>
    (add k₃ a₁ c₁ (by simp) h.1).bind fun h₁ k₄ h => ?_
  have rest : Prog.Within (Confines G) (do
      let p₀ ← Kernel.withChannel tab h₀ channelRights
      let p₁ ← Kernel.withChannel tab h₁ channelRights
      Kernel.setPeer tab h₀ p₁
      Kernel.setPeer tab h₁ p₀
      return (h₀, h₁)) :=
    (withChannel h₀).bind fun p₀ => (withChannel h₁).bind fun p₁ => (setPeer h₀ p₁).bind fun _ =>
      (setPeer h₁ p₀).bind fun _ => .pure _
  exact granting_within rest h.1

theorem confines_sysChannelRegister (tab : Nat) (name : List UInt8) (hv : Nat) :
    Prog.Within (Confines G) (sysChannelRegister tab name hv) := by
  refine Prog.Within.bind ?_ fun ptr => fun k => ?_
  · refine (within_findSlot tab hv _).bind fun s => ?_
    cases s.object <;> first | exact .pure _ | exact .throw _
  · unfold registerService
    split
    · exact Std.Refl.refl k
    · split
      · exact Std.Refl.refl k
      · split
        · exact .of_same rfl rfl
        · exact Std.Refl.refl k

theorem granting_sysChannelLookup (cl : G.Closed made) (g : k.Granted G) (cur tab : Nat)
    (name : List UInt8) {a₀ a₁ : Nat} (new : ∀ a ∈ [a₀, a₁], made a) :
    Granting G (sysChannelLookup cur tab name a₀ a₁) k fun _ => True := by
  have looked : Prog.Within (Confines G) (lookupService (name.take serviceNameMax)) := by
    intro k
    unfold lookupService
    split
    · exact Std.Refl.refl k
    · split <;> exact Std.Refl.refl k
  refine (granting_within looked g).bind fun service k₁ h => ?_
  refine (granting_createPair cl h.1 tab new).bind fun pair k₂ h => ?_
  refine (granting_within (within_deref service) h.1).bind fun c k₃ h => ?_
  cases c.peer with
  | none => exact .throw h.1
  | some q =>
    refine (granting_channelWrite cl h.1 cur q [] [pair.2]).bind fun r k₄ h => ?_
    cases r <;> exact .pure ⟨h.1, trivial⟩

end Kernel

/-! ## Runs -/

/-- A call of the channel machine, or a duplication. -/
inductive RightsOp where
  | peer (op : PeerOp)
  | duplicate (tab hv required : Nat)

namespace RightsOp

open Kernel

def exec : RightsOp → KernelM Unit
  | .peer op => op.exec
  | .duplicate tab hv required => do let _ ← duplicateHandle tab hv required

def system : Stepper Kernel Status RightsOp := ⟨exec, fun _ _ => True⟩

/-- The addresses of the endpoints that the call creates. -/
def endpoints : RightsOp → List Nat
  | .peer (.create _ a₀ a₁) => [a₀, a₁]
  | .peer (.lookup _ _ _ a₀ a₁) => [a₀, a₁]
  | _ => []

variable {G : Grants} {made : Nat → Prop} {k k' k₀ : Kernel}

theorem granting_exec (cl : G.Closed made) (g : k.Granted G) {op : RightsOp}
    (new : ∀ a ∈ op.endpoints, made a) :
    Granting G op.exec k fun _ => True := by
  have ignore : ∀ {α : Type} {m : KernelM α}, Granting G m k (fun _ => True) →
      Granting G (do let _ ← m : KernelM Unit) k fun _ => True := fun h =>
    h.bind fun _ _ h => .pure ⟨h.1, trivial⟩
  have returned : ∀ {m : KernelM CallResult}, Granting G m k (fun _ => True) →
      Granting G (do let r ← m; return some r : KernelM (Option CallResult)) k fun _ => True := fun h =>
    h.bind fun _ _ h => .pure ⟨h.1, trivial⟩
  cases op with
  | duplicate tab hv required => exact ignore (granting_duplicateHandle cl g tab hv required)
  | peer op =>
    cases op with
    | channel op =>
      refine ignore ?_
      cases op with
      | write cur p data hs => exact returned (granting_channelWrite cl g cur p data hs)
      | read cur p data hs => exact returned (granting_channelRead g cur p data hs)
      | readWithTimeout cur p data hs ms =>
        exact returned (granting_channelReadWithTimeout g cur p data hs ms)
      | resume cur => exact returned (granting_within (confines_resume cur) g)
      | close tab hv =>
        have closed : Granting G (sysClose tab hv) k fun _ => True :=
          (granting_removeWithRights g tab hv).bind fun o k₁ h =>
            granting_within (confines_dropObject o.1) h.1
        exact closed.bind fun _ _ h => .pure ⟨h.1, trivial⟩
      | tick => exact .modify_bind (.pure ⟨⟨g.tables, g.stashes⟩, trivial⟩)
    | close ptr =>
      exact granting_within (within_closeChannel confines_setChan confines_wakeAll ptr) g
    | create tab a₀ a₁ => exact ignore (granting_createPair cl g tab new)
    | register tab name hv => exact granting_within (confines_sysChannelRegister tab name hv) g
    | lookup cur tab name a₀ a₁ => exact ignore (granting_sysChannelLookup cl g cur tab name new)

/-- What is granted at the start of a run stays the limit of what is granted. -/
theorem granted_run (cl : G.Closed made) (start : k₀.Granted G)
    (run : system.Run (fun _ op => ∀ a ∈ op.endpoints, made a) k₀ k) : k.Granted G := by
  refine run.invariant start fun op s s' g new step => ?_
  rcases (granting_exec cl g new).ends step.ran with ⟨_, h, _⟩ | h
  · exact h
  · exact h

end RightsOp

/-- A handle to the object with these rights is in a table or in transit. -/
def Kernel.HasHandle (k : Kernel) (o : KernelObject) (r : Nat) : Prop :=
  (∃ tab, ∃ s ∈ (k.tables tab).occupants, s.object = o ∧ s.rights = r) ∨
    ∃ t ∈ k.threads.occupants, some (o, r) ∈ t.ipcTransferSlots

/-- The rights that are left in a run through `ops`: those of a handle of the start or of a duplicate of
its object, and those of an endpoint that one of the calls has created. -/
inductive Inherited (k₀ : Kernel) (ops : List RightsOp) : Grants
  | held {o : KernelObject} {r : Nat} (h : k₀.HasHandle o r) : Inherited k₀ ops o r
  | clone {v : Vmo} {r : Nat} (h : Inherited k₀ ops (.vmo v) r) : Inherited k₀ ops (.vmo v.clone) r
  | endpoint {op : RightsOp} {p : Nat} (mem : op ∈ ops) (created : p ∈ op.endpoints) :
    Inherited k₀ ops (.channel p) Kernel.channelRights

namespace Inherited

variable {k₀ : Kernel} {ops : List RightsOp}

theorem closed : Grants.Closed (Inherited k₀ ops) fun p => ∃ op ∈ ops, p ∈ op.endpoints :=
  ⟨fun _ _ => .clone, fun _ ⟨_, mem, created⟩ => .endpoint mem created⟩

theorem granted : k₀.Granted (Inherited k₀ ops) :=
  ⟨fun tab s mem => .held (Or.inl ⟨tab, s, mem, rfl, rfl⟩), fun t mem _ _ inside =>
    .held (Or.inr ⟨t, mem, inside⟩)⟩

end Inherited

/-- An object that is neither duplicated nor created by a call of `ops`. -/
def KernelObject.Plain (ops : List RightsOp) (o : KernelObject) : Prop :=
  (∀ v, o ≠ .vmo v) ∧ ∀ op ∈ ops, ∀ p ∈ op.endpoints, o ≠ .channel p

theorem Inherited.plain {k₀ : Kernel} {ops : List RightsOp} {o : KernelObject} {r : Nat}
    (h : Inherited k₀ ops o r) (plain : o.Plain ops) : k₀.HasHandle o r := by
  cases h with
  | held h => exact h
  | clone h => exact absurd rfl (plain.1 _)
  | endpoint mem created => exact absurd rfl (plain.2 _ mem _ created)

/-- No handle has rights that come neither from the start nor from the creation of an endpoint. -/
structure RightsKept (k₀ : Kernel) (ops : List RightsOp) (k : Kernel) : Prop where
  granted : k.Granted (Inherited k₀ ops)
  plain : ∀ o r, o.Plain ops → k.HasHandle o r → k₀.HasHandle o r

theorem rights_not_amplified {k₀ k : Kernel} {ops : List RightsOp} (run : RightsOp.system.RunOf k₀ ops k) :
    RightsKept k₀ ops k := by
  have granted := RightsOp.granted_run Inherited.closed Inherited.granted
    (run.run.mono fun _ op mem p created => ⟨op, mem, created⟩)
  refine ⟨granted, fun o r plain holds => Inherited.plain ?_ plain⟩
  rcases holds with ⟨tab, s, mem, rfl, rfl⟩ | ⟨t, mem, inside⟩
  · exact granted.tables tab s mem
  · exact granted.stashes t mem o r inside

/-! ### A handle on its way -/

/-- Thread 1 sends the handle 5 and waits; thread 2 reads it. A pair is made besides. -/
def RightsOp.handOver : List RightsOp :=
  [.peer (.channel (.write 1 100 [7] [5])), .peer (.create 1 300 400),
    .peer (.channel (.read 2 200 [0] [0])), .duplicate 2 1000 0]

theorem rights_not_amplified_handOver :
    RightsKept (Kernel.demo (.port 9)) RightsOp.handOver
      (RightsOp.system.after (Kernel.demo (.port 9)) RightsOp.handOver) := by
  have follows : RightsOp.system.Follows (fun _ _ => True) (Kernel.demo (.port 9))
      RightsOp.handOver :=
    ⟨trivial, trivial, by decide +kernel, trivial, trivial, by decide +kernel, trivial, trivial,
      by decide +kernel, trivial, trivial, by decide +kernel, trivial⟩
  exact rights_not_amplified (Stepper.RunOf.start.follow follows)

end CapsuleOS
