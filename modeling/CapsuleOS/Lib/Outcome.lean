import Mathlib.Tactic

/-!
# Stateful routines with errors and faults

A routine takes a state and ends in one of three ways: it returns a value, it returns an
error, or it faults. An error keeps the state reached so far, so that effects made before an
early return stay visible. A fault stands for an abort or an undefined access; nothing runs
after it, and the state it carries is the one at the faulting instruction.

`Within R` is the composition rule for frame conditions and invariants: a routine stays within
a preorder `R` when every outcome's state is `R`-related to the start. `Post` is the rule where the
next step depends on the value returned. `NoErr` says that a routine returns no error.
-/
namespace CapsuleOS.Lib

inductive Outcome (σ ε α : Type) where
  | ok (value : α) (state : σ)
  | err (error : ε) (state : σ)
  | fault (state : σ)

/-- The state in which a routine stopped, however it ended. -/
def Outcome.state {σ ε α : Type} : Outcome σ ε α → σ
  | .ok _ s => s
  | .err _ s => s
  | .fault s => s

@[simp] theorem Outcome.state_ok {σ ε α : Type} (a : α) (s : σ) :
    (Outcome.ok a s : Outcome σ ε α).state = s := rfl
@[simp] theorem Outcome.state_err {σ ε α : Type} (e : ε) (s : σ) :
    (Outcome.err e s : Outcome σ ε α).state = s := rfl
@[simp] theorem Outcome.state_fault {σ ε α : Type} (s : σ) :
    (Outcome.fault s : Outcome σ ε α).state = s := rfl

/-- The routine has returned, with a value or with an error, in the given state. -/
inductive Outcome.Ends {σ ε α : Type} : Outcome σ ε α → σ → Prop where
  | ok (a : α) (s : σ) : Ends (.ok a s) s
  | err (e : ε) (s : σ) : Ends (.err e s) s

def Outcome.faulted {σ ε α : Type} : Outcome σ ε α → Bool
  | .fault _ => true
  | _ => false

theorem Outcome.ends_state {σ ε α : Type} {out : Outcome σ ε α} (h : out.faulted = false) :
    out.Ends out.state := by
  cases out with
  | ok a s => exact .ok a s
  | err e s => exact .err e s
  | fault s => cases h

def Outcome.value? {σ ε α : Type} : Outcome σ ε α → Option α
  | .ok a _ => some a
  | _ => none

def Outcome.error? {σ ε α : Type} : Outcome σ ε α → Option ε
  | .err e _ => some e
  | _ => none

theorem Outcome.eq_ok_of_value? {σ ε α : Type} {out : Outcome σ ε α} {a : α} (h : out.value? = some a) :
    out = .ok a out.state := by
  cases out <;> cases h
  rfl

theorem Outcome.eq_err_of_error? {σ ε α : Type} {out : Outcome σ ε α} {e : ε}
    (h : out.error? = some e) : out = .err e out.state := by
  cases out <;> cases h
  rfl

/-- The same outcome with the state seen through `view`. -/
def Outcome.onState {σ τ ε α : Type} (view : σ → τ) : Outcome σ ε α → Outcome τ ε α
  | .ok a s => .ok a (view s)
  | .err e s => .err e (view s)
  | .fault s => .fault (view s)

theorem Outcome.ends_of_ok {σ ε α : Type} {out : Outcome σ ε α} {a : α} {s : σ} (h : out = .ok a s) :
    out.Ends s := h ▸ .ok a s

theorem Outcome.ends_of_err {σ ε α : Type} {out : Outcome σ ε α} {e : ε} {s : σ} (h : out = .err e s) :
    out.Ends s := h ▸ .err e s

theorem Outcome.Ends.state_eq {σ ε α : Type} {out : Outcome σ ε α} {s : σ} (h : out.Ends s) :
    out.state = s := by
  cases h <;> rfl

/-- A routine over states `σ` with error codes `ε` and results `α`. -/
def Prog (σ ε α : Type) := σ → Outcome σ ε α

namespace Prog

variable {σ τ ε α β : Type}

def pure (a : α) : Prog σ ε α := fun s => .ok a s

def bind (m : Prog σ ε α) (f : α → Prog σ ε β) : Prog σ ε β := fun s =>
  match m s with
  | .ok a s' => f a s'
  | .err e s' => .err e s'
  | .fault s' => .fault s'

instance : Monad (Prog σ ε) where
  pure := pure
  bind := bind

/-- Early return with an error; the effects made so far stay. -/
def throw (e : ε) : Prog σ ε α := fun s => .err e s

def fault : Prog σ ε α := fun s => .fault s

def get : Prog σ ε σ := fun s => .ok s s

def modify (f : σ → σ) : Prog σ ε Unit := fun s => .ok () (f s)

/-- Run `m` and hand its error, if any, to the caller as a value. -/
def attempt (m : Prog σ ε α) : Prog σ ε (Except ε α) := fun s =>
  match m s with
  | .ok a s' => .ok (.ok a) s'
  | .err e s' => .ok (.error e) s'
  | .fault s' => .fault s'

/-- Run a routine on one component of the state. -/
def zoom (view : σ → τ) (put : τ → σ → σ) (m : Prog τ ε α) : Prog σ ε α := fun s =>
  match m (view s) with
  | .ok a t => .ok a (put t s)
  | .err e t => .err e (put t s)
  | .fault t => .fault (put t s)

/-- Run a routine for every element of a list, in order. -/
def forEach (f : α → Prog σ ε Unit) : List α → Prog σ ε Unit
  | [] => pure ()
  | a :: as => bind (f a) fun _ => forEach f as

@[simp] theorem pure_apply (a : α) (s : σ) : (Pure.pure a : Prog σ ε α) s = .ok a s := rfl

@[simp] theorem pure_apply' (a : α) (s : σ) : (pure a : Prog σ ε α) s = .ok a s := rfl

@[simp] theorem throw_apply (e : ε) (s : σ) : (throw e : Prog σ ε α) s = .err e s := rfl

@[simp] theorem fault_apply (s : σ) : (fault : Prog σ ε α) s = .fault s := rfl
@[simp] theorem get_apply (s : σ) : (get : Prog σ ε σ) s = .ok s s := rfl
@[simp] theorem modify_apply (f : σ → σ) (s : σ) :
    (modify f : Prog σ ε Unit) s = .ok () (f s) := rfl

theorem bind_apply (m : Prog σ ε α) (f : α → Prog σ ε β) (s : σ) :
    (m >>= f) s = match m s with
      | .ok a s' => f a s'
      | .err e s' => .err e s'
      | .fault s' => .fault s' := rfl

@[simp] theorem bind_ok {m : Prog σ ε α} {f : α → Prog σ ε β} {s s' : σ} {a : α}
    (h : m s = .ok a s') : (m >>= f) s = f a s' := by simp [bind_apply, h]

@[simp] theorem bind_err {m : Prog σ ε α} {f : α → Prog σ ε β} {s s' : σ} {e : ε}
    (h : m s = .err e s') : (m >>= f) s = .err e s' := by simp [bind_apply, h]

@[simp] theorem bind_fault {m : Prog σ ε α} {f : α → Prog σ ε β} {s s' : σ}
    (h : m s = .fault s') : (m >>= f) s = .fault s' := by simp [bind_apply, h]

/-- Sequences agree that go on in the same way where the first part returns. -/
theorem bind_congr {m : Prog σ ε α} {f g : α → Prog σ ε β} {s : σ}
    (h : ∀ a u, m s = .ok a u → f a u = g a u) : (m >>= f) s = (m >>= g) s := by
  rw [bind_apply, bind_apply]
  cases run : m s with
  | ok a u => exact h a u run
  | err e u => rfl
  | fault u => rfl

theorem bind_pure_unit (m : Prog σ ε Unit) : (m >>= fun _ => Pure.pure ()) = m := by
  funext s
  rw [bind_apply]
  cases m s <;> rfl

theorem bind_assoc (m : Prog σ ε α) (f : α → Prog σ ε β) {γ : Type} (g : β → Prog σ ε γ) :
    (m >>= fun a => f a >>= g) = (m >>= f) >>= g := by
  funext s
  simp only [bind_apply]
  cases m s <;> rfl

/-- Invert a sequence that returned a value. -/
theorem bind_eq_ok {m : Prog σ ε α} {f : α → Prog σ ε β} {s t : σ} {b : β}
    (h : (m >>= f) s = .ok b t) : ∃ a u, m s = .ok a u ∧ f a u = .ok b t := by
  rw [bind_apply] at h
  cases hm : m s with
  | ok a u => exact ⟨a, u, rfl, by simpa [hm] using h⟩
  | err e u => simp [hm] at h
  | fault u => simp [hm] at h

/-- Invert a sequence that returned an error. -/
theorem bind_eq_err {m : Prog σ ε α} {f : α → Prog σ ε β} {s t : σ} {e : ε}
    (h : (m >>= f) s = .err e t) :
    m s = .err e t ∨ ∃ a u, m s = .ok a u ∧ f a u = .err e t := by
  rw [bind_apply] at h
  cases hm : m s with
  | ok a u => exact Or.inr ⟨a, u, rfl, by simpa [hm] using h⟩
  | err e' u =>
    rw [hm] at h
    cases h
    exact Or.inl rfl
  | fault u => simp [hm] at h

/-- Invert a sequence that returned. -/
theorem bind_ends {m : Prog σ ε α} {f : α → Prog σ ε β} {s t : σ} (h : ((m >>= f) s).Ends t) :
    (∃ e, m s = .err e t) ∨ ∃ a u, m s = .ok a u ∧ (f a u).Ends t := by
  rw [bind_apply] at h
  cases hm : m s with
  | ok a u => exact Or.inr ⟨a, u, rfl, by simpa [hm] using h⟩
  | err e u =>
    rw [hm] at h
    cases h
    exact Or.inl ⟨e, rfl⟩
  | fault u =>
    rw [hm] at h
    cases h

theorem map_ends {m : Prog σ ε α} {g : α → β} {s t : σ}
    (h : ((m >>= fun a => Pure.pure (g a)) s).Ends t) : (m s).Ends t := by
  rcases bind_ends h with ⟨e, err⟩ | ⟨a, u, ok, rest⟩
  · rw [err]
    exact .err e t
  · cases rest
    rw [ok]
    exact .ok a t

theorem attempt_ok {m : Prog σ ε α} {s t : σ} {a : α} (h : m s = .ok a t) :
    attempt m s = .ok (.ok a) t := by
  rw [attempt, h]

theorem attempt_err {m : Prog σ ε α} {s t : σ} {e : ε} (h : m s = .err e t) :
    attempt m s = .ok (.error e) t := by
  rw [attempt, h]

theorem attempt_fault {m : Prog σ ε α} {s t : σ} (h : m s = .fault t) : attempt m s = .fault t := by
  rw [attempt, h]

section Zoom

variable {view : σ → τ} {put : τ → σ → σ} {m : Prog τ ε α} {s : σ} {t : τ}

theorem zoom_ok {a : α} (h : m (view s) = .ok a t) : zoom view put m s = .ok a (put t s) := by
  rw [zoom, h]

theorem zoom_err {e : ε} (h : m (view s) = .err e t) : zoom view put m s = .err e (put t s) := by
  rw [zoom, h]

theorem zoom_fault (h : m (view s) = .fault t) : zoom view put m s = .fault (put t s) := by
  rw [zoom, h]

end Zoom

theorem zoom_ends {view : σ → τ} {put : τ → σ → σ} {m : Prog τ ε α} {s s' : σ}
    (h : (zoom view put m s).Ends s') : ∃ t, (m (view s)).Ends t ∧ s' = put t s := by
  unfold zoom at h
  cases hm : m (view s) with
  | ok a t =>
    rw [hm] at h
    cases h
    exact ⟨t, .ok a t, rfl⟩
  | err e t =>
    rw [hm] at h
    cases h
    exact ⟨t, .err e t, rfl⟩
  | fault t =>
    rw [hm] at h
    cases h

theorem ends_zoom {view : σ → τ} {put : τ → σ → σ} {m : Prog τ ε α} {s : σ} {t : τ}
    (h : (m (view s)).Ends t) : (zoom view put m s).Ends (put t s) := by
  unfold zoom
  cases hm : m (view s) with
  | ok a u =>
    rw [hm] at h
    cases h
    exact .ok a _
  | err e u =>
    rw [hm] at h
    cases h
    exact .err e _
  | fault u =>
    rw [hm] at h
    cases h

theorem forEach_cons (f : α → Prog σ ε Unit) (a : α) (as : List α) :
    forEach f (a :: as) = (f a >>= fun _ => forEach f as) := rfl

theorem forEach_append (f : α → Prog σ ε Unit) (as bs : List α) (s : σ) :
    forEach f (as ++ bs) s = (forEach f as >>= fun _ => forEach f bs) s := by
  induction as generalizing s with
  | nil => rfl
  | cons a as ih =>
    rw [List.cons_append, forEach_cons, forEach_cons, ← bind_assoc]
    exact bind_congr fun _ t _ => ih t

/-- A loop returns when each of its steps does, from any state. -/
theorem forEach_returns {f : α → Prog σ ε Unit} {as : List α}
    (h : ∀ a ∈ as, ∀ s, ∃ t, f a s = .ok () t) (s : σ) : ∃ t, forEach f as s = .ok () t := by
  induction as generalizing s with
  | nil => exact ⟨s, rfl⟩
  | cons a as ih =>
    obtain ⟨t, run⟩ := h a (by simp) s
    obtain ⟨u, rest⟩ := ih (fun b mem => h b (by simp [mem])) t
    exact ⟨u, (bind_ok run).trans rest⟩

/-! ## Routines without errors -/

/-- The routine returns or faults. -/
def NoErr (m : Prog σ ε α) : Prop := ∀ s e t, m s ≠ .err e t

theorem NoErr.pure (a : α) : NoErr (Pure.pure a : Prog σ ε α) := fun _ _ _ h => nomatch h

theorem NoErr.get : NoErr (Prog.get : Prog σ ε σ) := fun _ _ _ h => nomatch h

theorem NoErr.modify (f : σ → σ) : NoErr (Prog.modify f : Prog σ ε Unit) := fun _ _ _ h => nomatch h

theorem NoErr.bind {m : Prog σ ε α} {f : α → Prog σ ε β} (hm : NoErr m) (hf : ∀ a, NoErr (f a)) :
    NoErr (m >>= f) := by
  intro s e t h
  rcases bind_eq_err h with first | ⟨a, u, _, second⟩
  · exact hm s e t first
  · exact hf a u e t second

theorem NoErr.attempt (m : Prog σ ε α) : NoErr (Prog.attempt m) := by
  intro s e t h
  unfold Prog.attempt at h
  cases hm : m s <;> simp [hm] at h

theorem NoErr.forEach {f : α → Prog σ ε Unit} (hf : ∀ a, NoErr (f a)) (as : List α) :
    NoErr (Prog.forEach f as) := by
  induction as with
  | nil => exact NoErr.pure ()
  | cons a as ih => exact (hf a).bind fun _ => ih

theorem NoErr.zoom {view : σ → τ} {put : τ → σ → σ} {m : Prog τ ε α} (hm : NoErr m) :
    NoErr (Prog.zoom view put m) := by
  intro s e t h
  unfold Prog.zoom at h
  cases hv : m (view s) with
  | ok a u => simp [hv] at h
  | err e' u => exact hm _ _ _ hv
  | fault u => simp [hv] at h

/-! ## Larger states -/

/-- `m` does on a larger state what `m'` does on the part of it that `view` shows. -/
def Lifts (view : σ → τ) (m : Prog σ ε α) (m' : Prog τ ε α) : Prop :=
  ∀ s, (m s).onState view = m' (view s)

section Lifts

variable {view : σ → τ}

theorem Lifts.pure (a : α) : Lifts view (Pure.pure a : Prog σ ε α) (Pure.pure a) := fun _ => rfl

theorem Lifts.throw (e : ε) : Lifts view (Prog.throw e : Prog σ ε α) (Prog.throw e) := fun _ => rfl

theorem Lifts.zoom {put : τ → σ → σ} (m : Prog τ ε α) (view_put : ∀ t s, view (put t s) = t) :
    Lifts view (Prog.zoom view put m) m := by
  intro s
  unfold Prog.zoom
  cases run : m (view s) <;> simp [Outcome.onState, view_put]

theorem Lifts.bind {m : Prog σ ε α} {m' : Prog τ ε α} {f : α → Prog σ ε β} {f' : α → Prog τ ε β}
    (hm : Lifts view m m') (hf : ∀ a, Lifts view (f a) (f' a)) : Lifts view (m >>= f) (m' >>= f') := by
  intro s
  have first := hm s
  cases run : m s with
  | ok a u =>
    rw [run] at first
    rw [bind_ok run, bind_ok first.symm]
    exact hf a u
  | err e u =>
    rw [run] at first
    rw [bind_err run, bind_err first.symm]
    rfl
  | fault u =>
    rw [run] at first
    rw [bind_fault run, bind_fault first.symm]
    rfl

/-- A step that the view does not show. -/
theorem Lifts.skip {m : Prog σ ε α} {f : α → Prog σ ε β} {m' : Prog τ ε β}
    (hm : ∀ s, ∃ a u, m s = .ok a u ∧ view u = view s) (hf : ∀ a, Lifts view (f a) m') :
    Lifts view (m >>= f) m' := by
  intro s
  obtain ⟨a, u, run, same⟩ := hm s
  rw [bind_ok run, hf a u, same]

end Lifts

/-! ## Postconditions -/

/-- From `s` the routine returns a value and a state in `Q`, or stops otherwise in a state in `E`. -/
structure Post (m : Prog σ ε α) (s : σ) (Q : α → σ → Prop) (E : σ → Prop) : Prop where
  ok : ∀ a t, m s = .ok a t → Q a t
  err : ∀ e t, m s = .err e t → E t
  fault : ∀ t, m s = .fault t → E t

section Post

variable {s : σ} {Q : α → σ → Prop} {E : σ → Prop}

theorem Post.of_ok {m : Prog σ ε α} (h : ∃ a u, m s = .ok a u ∧ Q a u) : Post m s Q E := by
  obtain ⟨a, u, run, holds⟩ := h
  refine ⟨?_, ?_, ?_⟩ <;> intros <;> simp_all

theorem Post.of_err {m : Prog σ ε α} {e : ε} {u : σ} (run : m s = .err e u) (holds : E u) :
    Post m s Q E := by
  refine ⟨?_, ?_, ?_⟩ <;> intros <;> simp_all

theorem Post.of_fault {m : Prog σ ε α} {u : σ} (run : m s = .fault u) (holds : E u) :
    Post m s Q E := by
  refine ⟨?_, ?_, ?_⟩ <;> intros <;> simp_all

theorem Post.pure {a : α} (h : Q a s) : Post (Pure.pure a : Prog σ ε α) s Q E :=
  .of_ok ⟨a, s, rfl, h⟩

theorem Post.throw {e : ε} (h : E s) : Post (Prog.throw e : Prog σ ε α) s Q E := .of_err rfl h

theorem Post.any (m : Prog σ ε α) (s : σ) : Post m s (fun _ _ => True) (fun _ => True) :=
  ⟨fun _ _ _ => trivial, fun _ _ _ => trivial, fun _ _ => trivial⟩

theorem Post.modify {f : σ → σ} {Q : Unit → σ → Prop} (h : Q () (f s)) :
    Post (Prog.modify f : Prog σ ε Unit) s Q E := .of_ok ⟨(), f s, rfl, h⟩

theorem Post.congr {m m' : Prog σ ε α} {s' : σ} (eq : m s = m' s') (h : Post m' s' Q E) :
    Post m s Q E :=
  ⟨fun a t run => h.ok a t (eq ▸ run), fun e t run => h.err e t (eq ▸ run),
    fun t run => h.fault t (eq ▸ run)⟩

theorem Post.bind {m : Prog σ ε α} {f : α → Prog σ ε β} {R : β → σ → Prop} (hm : Post m s Q E)
    (hf : ∀ a u, Q a u → Post (f a) u R E) : Post (m >>= f) s R E := by
  cases h : m s with
  | ok a u =>
    have rest := hf a u (hm.ok a u h)
    have run : (m >>= f) s = f a u := bind_ok h
    exact ⟨fun b t eq => rest.ok b t (run ▸ eq), fun e t eq => rest.err e t (run ▸ eq),
      fun t eq => rest.fault t (run ▸ eq)⟩
  | err e u => exact .of_err (bind_err h) (hm.err e u h)
  | fault u => exact .of_fault (bind_fault h) (hm.fault u h)

theorem Post.get_bind {f : σ → Prog σ ε β} {R : β → σ → Prop} (h : Post (f s) s R E) :
    Post (Prog.get >>= f) s R E := ⟨h.ok, h.err, h.fault⟩

theorem Post.modify_bind {g : σ → σ} {f : Unit → Prog σ ε β} {R : β → σ → Prop}
    (h : Post (f ()) (g s) R E) : Post (Prog.modify g >>= f) s R E := ⟨h.ok, h.err, h.fault⟩

/-- A step whose error is handed on as a value. -/
theorem Post.attempt_bind {m : Prog σ ε α} {f : Except ε α → Prog σ ε β} {R : β → σ → Prop}
    {F : σ → Prop} (hm : Post m s Q F) (ok : ∀ a u, Q a u → Post (f (.ok a)) u R E)
    (err : ∀ e u, F u → Post (f (.error e)) u R E) (fault : ∀ u, F u → E u) :
    Post (Prog.attempt m >>= f) s R E := by
  have tried : Post (Prog.attempt m) s (fun r u => Post (f r) u R E) E := by
    cases run : m s with
    | ok a u => exact .of_ok ⟨_, _, attempt_ok run, ok a u (hm.ok a u run)⟩
    | err e u => exact .of_ok ⟨_, _, attempt_err run, err e u (hm.err e u run)⟩
    | fault u => exact .of_fault (attempt_fault run) (fault u (hm.fault u run))
  exact tried.bind fun _ _ h => h

theorem Post.ends {m : Prog σ ε α} {t : σ} (h : Post m s Q E) (ran : (m s).Ends t) :
    (∃ a, Q a t) ∨ E t := by
  generalize eq : m s = out at ran
  cases ran with
  | ok a => exact Or.inl ⟨a, h.ok a t eq⟩
  | err e => exact Or.inr (h.err e t eq)

theorem Post.mono {m : Prog σ ε α} {Q' : α → σ → Prop} {E' : σ → Prop} (h : Post m s Q E)
    (hQ : ∀ a u, Q a u → Q' a u) (hE : ∀ u, E u → E' u) : Post m s Q' E' :=
  ⟨fun a t eq => hQ a t (h.ok a t eq), fun e t eq => hE t (h.err e t eq),
    fun t eq => hE t (h.fault t eq)⟩

theorem Post.and {m : Prog σ ε α} {Q' : α → σ → Prop} {E' : σ → Prop} (h : Post m s Q E)
    (h' : Post m s Q' E') : Post m s (fun a t => Q a t ∧ Q' a t) (fun t => E t ∧ E' t) :=
  ⟨fun a t eq => ⟨h.ok a t eq, h'.ok a t eq⟩, fun e t eq => ⟨h.err e t eq, h'.err e t eq⟩,
    fun t eq => ⟨h.fault t eq, h'.fault t eq⟩⟩

theorem Post.of_within {R : σ → σ → Prop} {m : Prog σ ε α} (h : ∀ s, R s (m s).state) :
    Post m s (fun _ => R s) (R s) := by
  have last := h s
  refine ⟨?_, ?_, ?_⟩ <;> intros <;> simp_all

/-- What holds of every way to stop holds of the last state. -/
theorem Post.state {m : Prog σ ε α} (h : Post m s (fun _ => E) E) : E (m s).state := by
  cases run : m s with
  | ok a t => exact h.ok a t run
  | err e t => exact h.err e t run
  | fault t => exact h.fault t run

theorem Post.zoom {view : σ → τ} {put : τ → σ → σ} {m : Prog τ ε α} {Q' : α → τ → Prop}
    {E' : τ → Prop} (h : Post m (view s) Q' E') (hQ : ∀ a t, Q' a t → Q a (put t s))
    (hE : ∀ t, E' t → E (put t s)) : Post (Prog.zoom view put m) s Q E := by
  cases run : m (view s) with
  | ok a t => exact .of_ok ⟨a, put t s, zoom_ok run, hQ a t (h.ok a t run)⟩
  | err e t => exact .of_err (zoom_err run) (hE t (h.err e t run))
  | fault t => exact .of_fault (zoom_fault run) (hE t (h.fault t run))

end Post

/-! ## Staying within a preorder -/

/-- Every outcome of `m` ends in a state that `R` relates to the start. -/
def Within (R : σ → σ → Prop) (m : Prog σ ε α) : Prop := ∀ s, R s (m s).state

section Within

variable {R : σ → σ → Prop}

theorem Within.pure [Std.Refl R] (a : α) : Within R (Pure.pure a : Prog σ ε α) :=
  fun s => Std.Refl.refl s

theorem Within.throw [Std.Refl R] (e : ε) : Within R (Prog.throw e : Prog σ ε α) :=
  fun s => Std.Refl.refl s

theorem Within.fault [Std.Refl R] : Within R (Prog.fault : Prog σ ε α) :=
  fun s => Std.Refl.refl s

theorem Within.get [Std.Refl R] : Within R (Prog.get : Prog σ ε σ) :=
  fun s => Std.Refl.refl s

theorem Within.modify {f : σ → σ} (h : ∀ s, R s (f s)) :
    Within R (Prog.modify f : Prog σ ε Unit) := h

/-- A first part that does what `R` says, and a rest that adds nothing to it. -/
theorem Within.bind_still {S : σ → σ → Prop} (comp : ∀ {s t u}, R s t → S t u → R s u) {m : Prog σ ε α}
    {f : α → Prog σ ε β} (hm : Within R m) (hf : ∀ a, Within S (f a)) : Within R (m >>= f) := by
  intro s
  have first := hm s
  rw [bind_apply]
  cases h : m s with
  | ok a u =>
    rw [h] at first
    exact comp first (hf a u)
  | err e u => simpa [h] using first
  | fault u => simpa [h] using first

theorem Within.bind [IsTrans σ R] {m : Prog σ ε α} {f : α → Prog σ ε β}
    (hm : Within R m) (hf : ∀ a, Within R (f a)) : Within R (m >>= f) :=
  hm.bind_still (fun h h' => IsTrans.trans _ _ _ h h') hf

theorem Within.attempt {m : Prog σ ε α} (hm : Within R m) : Within R (Prog.attempt m) := by
  intro s
  have first := hm s
  unfold Prog.attempt
  cases h : m s <;> simpa [h] using first

theorem Within.zoom {S : τ → τ → Prop} {view : σ → τ} {put : τ → σ → σ} {m : Prog τ ε α}
    (hm : Within S m) (lift : ∀ s t, S (view s) t → R s (put t s)) :
    Within R (Prog.zoom view put m) := by
  intro s
  have first := hm (view s)
  unfold Prog.zoom
  cases h : m (view s) <;> exact lift s _ (by simpa [h] using first)

theorem Within.forEach [Std.Refl R] [IsTrans σ R] {f : α → Prog σ ε Unit} {as : List α}
    (hf : ∀ a ∈ as, Within R (f a)) : Within R (Prog.forEach f as) := by
  induction as with
  | nil => exact Within.pure ()
  | cons a as ih =>
    exact Within.bind (hf a (by simp)) fun _ => ih fun b hb => hf b (by simp [hb])

end Within

end Prog

end CapsuleOS.Lib
