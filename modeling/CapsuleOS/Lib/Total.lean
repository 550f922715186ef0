import CapsuleOS.Lib.Outcome

/-!
# Total correctness

`Prog.Post` allows a routine to fault. `Prog.Total` is the same judgement for routines that do not; its
rules have the names of those of `Post`. `Prog.Safe` is for routines that keep an invariant of the state.
-/
namespace CapsuleOS.Lib.Prog

variable {σ τ ε α β : Type}

/-- From `s` the routine returns, with a value and a state in `Q` or with an error in a state in `E`. -/
structure Total (m : Prog σ ε α) (s : σ) (Q : α → σ → Prop) (E : σ → Prop) : Prop where
  post : Post m s Q E
  returns : (m s).faulted = false

namespace Total

variable {m : Prog σ ε α} {f : α → Prog σ ε β} {s : σ} {Q Q' : α → σ → Prop} {R : β → σ → Prop}
  {E E' : σ → Prop}

theorem of_ok (h : ∃ a u, m s = .ok a u ∧ Q a u) : Total m s Q E := by
  refine ⟨.of_ok h, ?_⟩
  obtain ⟨a, u, run, _⟩ := h
  rw [run]
  rfl

theorem of_err {e : ε} {u : σ} (run : m s = .err e u) (holds : E u) : Total m s Q E := by
  refine ⟨.of_err run holds, ?_⟩
  rw [run]
  rfl

theorem pure {a : α} (h : Q a s) : Total (Pure.pure a : Prog σ ε α) s Q E := ⟨.pure h, rfl⟩

theorem throw {e : ε} (h : E s) : Total (Prog.throw e : Prog σ ε α) s Q E := ⟨.throw h, rfl⟩

theorem congr {m' : Prog σ ε α} {s' : σ} (eq : m s = m' s') (h : Total m' s' Q E) : Total m s Q E :=
  ⟨.congr eq h.post, eq ▸ h.returns⟩

theorem bind (hm : Total m s Q E) (hf : ∀ a u, Q a u → Total (f a) u R E) : Total (m >>= f) s R E := by
  refine ⟨hm.post.bind fun a u h => (hf a u h).post, ?_⟩
  cases run : m s with
  | ok a u =>
    rw [bind_ok run]
    exact (hf a u (hm.post.ok a u run)).returns
  | err e u =>
    rw [bind_err run]
    rfl
  | fault u =>
    have returns := hm.returns
    rw [run] at returns
    cases returns

theorem get_bind {g : σ → Prog σ ε β} (h : Total (g s) s R E) : Total (Prog.get >>= g) s R E :=
  ⟨.get_bind h.post, h.returns⟩

theorem modify {g : σ → σ} {Q : Unit → σ → Prop} (h : Q () (g s)) :
    Total (Prog.modify g : Prog σ ε Unit) s Q E := ⟨.modify h, rfl⟩

theorem modify_bind {g : σ → σ} {k : Unit → Prog σ ε β} (h : Total (k ()) (g s) R E) :
    Total (Prog.modify g >>= k) s R E := ⟨.modify_bind h.post, h.returns⟩

theorem mono (h : Total m s Q E) (hQ : ∀ a u, Q a u → Q' a u) (hE : ∀ u, E u → E' u) :
    Total m s Q' E' := ⟨h.post.mono hQ hE, h.returns⟩

theorem and_post (h : Total m s Q E) (h' : Post m s Q' E') :
    Total m s (fun a t => Q a t ∧ Q' a t) (fun t => E t ∧ E' t) := ⟨h.post.and h', h.returns⟩

/-- With the error handed on as a value, the routine returns one. -/
theorem attempt {Q : Except ε α → σ → Prop} {P : σ → Prop} (hm : Total m s (fun a u => Q (.ok a) u) P)
    (err : ∀ e u, P u → Q (.error e) u) : Total (Prog.attempt m) s Q E := by
  cases run : m s with
  | ok a u => exact .of_ok ⟨_, u, by simp [Prog.attempt, run], hm.post.ok a u run⟩
  | err e u => exact .of_ok ⟨_, u, by simp [Prog.attempt, run], err e u (hm.post.err e u run)⟩
  | fault u =>
    have returns := hm.returns
    rw [run] at returns
    cases returns

theorem zoom {view : σ → τ} {put : τ → σ → σ} {m : Prog τ ε α} {Q' : α → τ → Prop} {E' : τ → Prop}
    (h : Total m (view s) Q' E') (hQ : ∀ a t, Q' a t → Q a (put t s)) (hE : ∀ t, E' t → E (put t s)) :
    Total (Prog.zoom view put m) s Q E := by
  refine ⟨h.post.zoom hQ hE, ?_⟩
  have returns := h.returns
  unfold Prog.zoom
  cases run : m (view s) <;> rw [run] at returns <;> trivial

end Total

/-- From a state in `I` the routine does not fault, and it returns a value in `Q` in a state in `I`. -/
def Safe (I : σ → Prop) (m : Prog σ ε α) (Q : α → Prop) : Prop :=
  ∀ s, I s → Total m s (fun a t => Q a ∧ I t) fun _ => True

namespace Safe

variable {I : σ → Prop} {Q Q' : α → Prop}

theorem pure {a : α} (h : Q a) : Safe I (Pure.pure a : Prog σ ε α) Q := fun _ start => .pure ⟨h, start⟩

theorem throw (e : ε) : Safe I (Prog.throw e : Prog σ ε α) Q := fun _ _ => .throw trivial

theorem modify {f : σ → σ} (keeps : ∀ s, I s → I (f s)) : Safe I (Prog.modify f : Prog σ ε Unit) fun _ => True :=
  fun s start => .modify ⟨trivial, keeps s start⟩

theorem bind {R : β → Prop} {m : Prog σ ε α} {f : α → Prog σ ε β} (hm : Safe I m Q)
    (hf : ∀ a, Q a → Safe I (f a) R) : Safe I (m >>= f) R :=
  fun s start => (hm s start).bind fun a u holds => hf a holds.1 u holds.2

theorem forEach {f : α → Prog σ ε Unit} {as : List α} (hf : ∀ a ∈ as, Safe I (f a) fun _ => True) :
    Safe I (Prog.forEach f as) fun _ => True := by
  induction as with
  | nil => exact pure trivial
  | cons a as ih =>
    obtain ⟨first, later⟩ := List.forall_mem_cons.mp hf
    exact first.bind fun _ _ => ih later

theorem not_fault {m : Prog σ ε α} (hm : Safe I m Q) {s : σ} (start : I s) (t : σ) : m s ≠ .fault t := by
  intro run
  have returns := (hm s start).returns
  rw [run] at returns
  cases returns

end Safe

end CapsuleOS.Lib.Prog
