import CapsuleOS.Lib.Outcome

/-!
# Routines in lockstep

Two routines over different states, run side by side: `Lockstep` says that they end in the same way, with
the same result, and in states that are related. Its rules follow the way the routines are put together,
as those of `Prog.Post` do for one routine.
-/
namespace CapsuleOS.Lib

/-- Two outcomes of the same kind with the same result. -/
inductive Outcome.Matched {σ τ ε α : Type} (Q : α → σ → τ → Prop) (E : σ → τ → Prop) :
    Outcome σ ε α → Outcome τ ε α → Prop where
  | ok (a : α) (s : σ) (t : τ) (h : Q a s t) : Matched Q E (.ok a s) (.ok a t)
  | err (e : ε) (s : σ) (t : τ) (h : E s t) : Matched Q E (.err e s) (.err e t)
  | fault (s : σ) (t : τ) (h : E s t) : Matched Q E (.fault s) (.fault t)

namespace Prog

variable {σ τ ε α β : Type}

def Lockstep (m : Prog σ ε α) (n : Prog τ ε α) (s : σ) (t : τ) (Q : α → σ → τ → Prop)
    (E : σ → τ → Prop) : Prop := Outcome.Matched Q E (m s) (n t)

variable {m : Prog σ ε α} {n : Prog τ ε α} {s : σ} {t : τ} {Q : α → σ → τ → Prop} {E : σ → τ → Prop}

/-- The three ways in which both end. -/
theorem Lockstep.ends (h : Lockstep m n s t Q E) :
    (∃ a u v, m s = .ok a u ∧ n t = .ok a v ∧ Q a u v) ∨
      (∃ e u v, m s = .err e u ∧ n t = .err e v ∧ E u v) ∨
      ∃ u v, m s = .fault u ∧ n t = .fault v ∧ E u v := by
  unfold Lockstep at h
  generalize m s = x, n t = y at h
  cases h with
  | ok a u v h => exact .inl ⟨a, u, v, rfl, rfl, h⟩
  | err e u v h => exact .inr (.inl ⟨e, u, v, rfl, rfl, h⟩)
  | fault u v h => exact .inr (.inr ⟨u, v, rfl, rfl, h⟩)

theorem Lockstep.of_ok {a : α} {s' : σ} {t' : τ} (hm : m s = .ok a s') (hn : n t = .ok a t')
    (h : Q a s' t') : Lockstep m n s t Q E := by
  rw [Lockstep, hm, hn]
  exact .ok a s' t' h

theorem Lockstep.of_err {e : ε} {s' : σ} {t' : τ} (hm : m s = .err e s') (hn : n t = .err e t')
    (h : E s' t') : Lockstep m n s t Q E := by
  rw [Lockstep, hm, hn]
  exact .err e s' t' h

theorem Lockstep.of_fault {s' : σ} {t' : τ} (hm : m s = .fault s') (hn : n t = .fault t')
    (h : E s' t') : Lockstep m n s t Q E := by
  rw [Lockstep, hm, hn]
  exact .fault s' t' h

theorem Lockstep.throw {e : ε} (h : E s t) :
    Lockstep (Prog.throw e : Prog σ ε α) (Prog.throw e) s t Q E := .err e s t h

theorem Lockstep.mono {Q' : α → σ → τ → Prop} {E' : σ → τ → Prop} (h : Lockstep m n s t Q E)
    (hQ : ∀ a u v, Q a u v → Q' a u v) (hE : ∀ u v, E u v → E' u v) : Lockstep m n s t Q' E' := by
  rcases h.ends with ⟨a, u, v, hm, hn, h⟩ | ⟨e, u, v, hm, hn, h⟩ | ⟨u, v, hm, hn, h⟩
  · exact .of_ok hm hn (hQ a u v h)
  · exact .of_err hm hn (hE u v h)
  · exact .of_fault hm hn (hE u v h)

theorem Lockstep.bind {f : α → Prog σ ε β} {g : α → Prog τ ε β} {R : β → σ → τ → Prop}
    (h : Lockstep m n s t Q E) (rest : ∀ a u v, Q a u v → Lockstep (f a) (g a) u v R E) :
    Lockstep (m >>= f) (n >>= g) s t R E := by
  rcases h.ends with ⟨a, u, v, hm, hn, h⟩ | ⟨e, u, v, hm, hn, h⟩ | ⟨u, v, hm, hn, h⟩
  · rw [Lockstep, bind_ok hm, bind_ok hn]
    exact rest a u v h
  · exact .of_err (bind_err hm) (bind_err hn) h
  · exact .of_fault (bind_fault hm) (bind_fault hn) h

theorem Lockstep.get_bind {f : σ → Prog σ ε β} {g : τ → Prog τ ε β} {R : β → σ → τ → Prop}
    (h : Lockstep (f s) (g t) s t R E) : Lockstep (Prog.get >>= f) (Prog.get >>= g) s t R E := h

/-- The second routine reads its state. -/
theorem Lockstep.bind_get {g : τ → Prog τ ε α} (h : Lockstep m (g t) s t Q E) :
    Lockstep m (Prog.get >>= g) s t Q E := h

theorem Lockstep.modify_bind {p : σ → σ} {q : τ → τ} {f : Unit → Prog σ ε β} {g : Unit → Prog τ ε β}
    {R : β → σ → τ → Prop} (h : Lockstep (f ()) (g ()) (p s) (q t) R E) :
    Lockstep (Prog.modify p >>= f) (Prog.modify q >>= g) s t R E := h

/-- What is known of the first routine alone. -/
theorem Lockstep.and_post {Q' : α → σ → Prop} {E' : σ → Prop} (h : Lockstep m n s t Q E)
    (post : Post m s Q' E') :
    Lockstep m n s t (fun a u v => Q a u v ∧ Q' a u) (fun u v => E u v ∧ E' u) := by
  rcases h.ends with ⟨a, u, v, hm, hn, h⟩ | ⟨e, u, v, hm, hn, h⟩ | ⟨u, v, hm, hn, h⟩
  · exact .of_ok hm hn ⟨h, post.ok a u hm⟩
  · exact .of_err hm hn ⟨h, post.err e u hm⟩
  · exact .of_fault hm hn ⟨h, post.fault u hm⟩

theorem Lockstep.left (h : Lockstep m n s t Q E) :
    Post m s (fun a u => ∃ v, Q a u v) (fun u => ∃ v, E u v) := by
  rcases h.ends with ⟨a, u, v, hm, _, h⟩ | ⟨e, u, v, hm, _, h⟩ | ⟨u, v, hm, _, h⟩
  · exact .of_ok ⟨a, u, hm, v, h⟩
  · exact .of_err hm ⟨v, h⟩
  · exact .of_fault hm ⟨v, h⟩

/-- Both routines run on a component of their states. -/
theorem Lockstep.zoom {σ' τ' : Type} {view : σ' → σ} {put : σ → σ' → σ'} {view' : τ' → τ}
    {put' : τ → τ' → τ'} {s : σ'} {t : τ'} {Q' : α → σ' → τ' → Prop} {E' : σ' → τ' → Prop}
    (h : Lockstep m n (view s) (view' t) Q E) (hQ : ∀ a u v, Q a u v → Q' a (put u s) (put' v t))
    (hE : ∀ u v, E u v → E' (put u s) (put' v t)) :
    Lockstep (Prog.zoom view put m) (Prog.zoom view' put' n) s t Q' E' := by
  rcases h.ends with ⟨a, u, v, hm, hn, h⟩ | ⟨e, u, v, hm, hn, h⟩ | ⟨u, v, hm, hn, h⟩
  · exact .of_ok (by rw [Prog.zoom, hm]) (by rw [Prog.zoom, hn]) (hQ a u v h)
  · exact .of_err (by rw [Prog.zoom, hm]) (by rw [Prog.zoom, hn]) (hE u v h)
  · exact .of_fault (by rw [Prog.zoom, hm]) (by rw [Prog.zoom, hn]) (hE u v h)

end Prog

end CapsuleOS.Lib
