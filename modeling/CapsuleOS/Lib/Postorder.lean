import CapsuleOS.Lib.Outcome
import CapsuleOS.Lib.Radix

/-!
# All nodes of a tree

The nodes below a root, every node behind the nodes that it refers to. Where every node has one path
each node is listed once (`nodup_postorder`). A routine that visits the nodes level by level, reading
the references as it meets them, visits this list if its visits leave the references alone
(`visitBelow_eq`).
-/
namespace CapsuleOS.Lib.Radix

variable {ν ε : Type}

/-- The nodes that the first `w` entries refer to. -/
def children (next : ε → Option ν) (read : ν → Nat → ε) (w : Nat) (n : ν) : List ν :=
  (List.range w).filterMap fun i => next (read n i)

/-- The nodes with paths of at most `depth` indices, of which the first is below `w` and the others
below `width`. -/
def postorder (next : ε → Option ν) (read : ν → Nat → ε) (width : Nat) : Nat → Nat → ν → List ν
  | 0, _, n => [n]
  | depth + 1, w, n => (children next read w n).flatMap (postorder next read width depth width) ++ [n]

variable {next : ε → Option ν} {read : ν → Nat → ε} {width w depth : Nat} {n t : ν}

@[grind =]
theorem mem_children : t ∈ children next read w n ↔ ∃ i < w, next (read n i) = some t := by
  simp [children]

/-- The first index is below `w`. -/
def Starts (w : Nat) (P : List Nat) : Prop := ∀ i ∈ P.head?, i < w

theorem starts_of_isPath {P : List Nat} (h : IsPath width depth P) : Starts width P :=
  fun i mem => h.2 i (List.mem_of_mem_head? mem)

theorem isPath_cons {i : Nat} {P : List Nat} :
    IsPath width (depth + 1) (i :: P) ↔ i < width ∧ IsPath width depth P := by
  simp only [IsPath, List.length_cons, Nat.add_le_add_iff_right, List.mem_cons, forall_eq_or_imp]
  grind

theorem mem_postorder (le : w ≤ width) : t ∈ postorder next read width depth w n ↔
    ∃ P, IsPath width depth P ∧ Starts w P ∧ follow next read n P = some t := by
  induction depth generalizing w n with
  | zero =>
    constructor
    · intro mem
      obtain rfl : t = n := by simpa [postorder] using mem
      exact ⟨[], by simp [IsPath], by simp [Starts], rfl⟩
    · rintro ⟨P, ⟨len, _⟩, _, reach⟩
      obtain rfl := List.eq_nil_of_length_eq_zero (Nat.le_zero.mp len)
      cases reach
      simp [postorder]
  | succ depth ih =>
    simp only [postorder, List.mem_append, List.mem_flatMap, List.mem_singleton, mem_children]
    constructor
    · rintro (⟨c, ⟨i, hi, link⟩, below⟩ | rfl)
      · obtain ⟨P, isPath, _, reach⟩ := (ih le_rfl).mp below
        refine ⟨i :: P, isPath_cons.mpr ⟨by omega, isPath⟩, by simpa [Starts] using hi, ?_⟩
        rw [follow, link]
        exact reach
      · exact ⟨[], by simp [IsPath], by simp [Starts], rfl⟩
    · rintro ⟨P, isPath, starts, reach⟩
      cases P with
      | nil =>
        cases reach
        exact Or.inr rfl
      | cons i P =>
        obtain ⟨c, link, rest⟩ := Option.bind_eq_some_iff.mp reach
        obtain ⟨_, below⟩ := isPath_cons.mp isPath
        exact Or.inl ⟨c, ⟨i, starts i rfl, link⟩, (ih le_rfl).mpr ⟨P, below, starts_of_isPath below, rest⟩⟩

/-- No node has two paths that begin below `w`. -/
def OnceFrom (next : ε → Option ν) (read : ν → Nat → ε) (width depth w : Nat) (root : ν) : Prop :=
  ∀ P P' n, IsPath width depth P → Starts w P → IsPath width depth P' → Starts w P' →
    follow next read root P = some n → follow next read root P' = some n → P = P'

theorem OnceFrom.child (h : OnceFrom next read width (depth + 1) w n) {i : Nat} (hi : i < w)
    (le : w ≤ width) (link : next (read n i) = some t) : OnceFrom next read width depth width t := by
  intro P P' m isPath _ isPath' _ reach reach'
  have eq := h (i :: P) (i :: P') m (isPath_cons.mpr ⟨by omega, isPath⟩) (by simpa [Starts] using hi)
    (isPath_cons.mpr ⟨by omega, isPath'⟩) (by simpa [Starts] using hi)
    (by rw [follow, link]; exact reach) (by rw [follow, link]; exact reach')
  exact (List.cons.inj eq).2

theorem nodup_postorder (le : w ≤ width) (h : OnceFrom next read width depth w n) :
    (postorder next read width depth w n).Nodup := by
  induction depth generalizing w n with
  | zero => exact List.nodup_singleton n
  | succ depth ih =>
    -- a node below entry `i` has a path that begins with `i`
    have through : ∀ i c m, i < w → next (read n i) = some c →
        m ∈ postorder next read width depth width c →
        ∃ P, IsPath width (depth + 1) (i :: P) ∧ follow next read n (i :: P) = some m := by
      intro i c m hi link mem
      obtain ⟨P, isPath, _, reach⟩ := (mem_postorder le_rfl).mp mem
      exact ⟨P, isPath_cons.mpr ⟨by omega, isPath⟩, by rw [follow, link]; exact reach⟩
    have starts : ∀ {i : Nat} {P : List Nat}, i < w → Starts w (i :: P) := fun hi => by
      simpa [Starts] using hi
    rw [postorder, List.nodup_append]
    refine ⟨List.nodup_flatMap.mpr ⟨fun c mem => ?_, ?_⟩, List.nodup_singleton n, ?_⟩
    · obtain ⟨i, hi, link⟩ := mem_children.mp mem
      exact ih le_rfl (h.child hi le link)
    · refine List.pairwise_filterMap.mpr ((List.nodup_range).imp_of_mem ?_)
      intro i j memi memj ne c link c' link' m mem mem'
      have hi := List.mem_range.mp memi
      have hj := List.mem_range.mp memj
      obtain ⟨P, isPath, reach⟩ := through i c m hi link mem
      obtain ⟨P', isPath', reach'⟩ := through j c' m hj link' mem'
      exact ne (List.cons.inj (h _ _ m isPath (starts hi) isPath' (starts hj) reach reach')).1
    · rintro m mem _ last rfl
      obtain rfl := List.mem_singleton.mp last
      obtain ⟨c, memc, below⟩ := List.mem_flatMap.mp mem
      obtain ⟨i, hi, link⟩ := mem_children.mp memc
      obtain ⟨P, isPath, reach⟩ := through i c m hi link below
      have eq := h (i :: P) [] m isPath (starts hi) (by simp [IsPath]) (by simp [Starts]) reach rfl
      cases eq

/-! ## Visiting -/

variable {σ e α : Type} {visit : ν → Prog σ e Unit} {store : σ → ν → Nat → ε}

/-- Visit the nodes below `n`, and `n` last; the references are read when they are met. -/
def visitBelow (next : ε → Option ν) (store : σ → ν → Nat → ε) (width : Nat)
    (visit : ν → Prog σ e Unit) : Nat → Nat → ν → Prog σ e Unit
  | 0, _, n => visit n
  | depth + 1, w, n => do
    Prog.forEach (fun i => do
      let s ← Prog.get
      (next (store s n i)).elim (pure ()) (visitBelow next store width visit depth width))
      (List.range w)
    visit n

/-- A loop keeps what each of its steps keeps. -/
theorem forEach_keeps {f : α → Prog σ e Unit} {β : Type} {g : σ → β}
    (keep : ∀ a s t, f a s = .ok () t → g t = g s) {as : List α} {s t : σ}
    (run : Prog.forEach f as s = .ok () t) : g t = g s := by
  induction as generalizing s with
  | nil =>
    cases run
    rfl
  | cons a as ih =>
    obtain ⟨_, u, first, rest⟩ := Prog.bind_eq_ok run
    exact (ih rest).trans (keep a s u first)

theorem visitBelow_eq (keep : ∀ n s t, visit n s = .ok () t → store t = store s) (s : σ) :
    visitBelow next store width visit depth w n s =
      Prog.forEach visit (postorder next (store s) width depth w n) s := by
  induction depth generalizing w n s with
  | zero =>
    rw [visitBelow, postorder, Prog.forEach_cons, Prog.bind_apply]
    cases visit n s <;> rfl
  | succ depth ih =>
    -- the children of the entries `is`, one after the other
    have loop : ∀ (is : List Nat) (s' : σ), store s' = store s →
        Prog.forEach (fun i => do
          let s ← Prog.get
          (next (store s n i)).elim (pure ()) (visitBelow next store width visit depth width)) is s' =
          Prog.forEach visit ((is.filterMap fun i => next (store s n i)).flatMap
            (postorder next (store s) width depth width)) s' := by
      intro is
      induction is with
      | nil => exact fun _ _ => rfl
      | cons i is rest =>
        intro s' same
        rw [Prog.forEach_cons, Prog.bind_apply, Prog.bind_apply, Prog.get_apply]
        simp only [same]
        cases link : next (store s n i) with
        | none =>
          rw [List.filterMap_cons, link]
          exact rest s' same
        | some c =>
          rw [List.filterMap_cons, link]
          simp only [List.flatMap_cons, Option.elim_some]
          rw [Prog.forEach_append, Prog.bind_apply]
          rw [ih, same]
          cases run : Prog.forEach visit (postorder next (store s) width depth width c) s' with
          | ok u t => exact rest t ((forEach_keeps keep run).trans same)
          | err x t => rfl
          | fault t => rfl
    rw [visitBelow, postorder, Prog.forEach_append, Prog.bind_apply, Prog.bind_apply,
      loop (List.range w) s rfl]
    rw [children]
    cases Prog.forEach visit _ s with
    | ok u t =>
      simp only [Prog.forEach_cons, Prog.bind_apply]
      cases visit n t <;> rfl
    | err x t => rfl
    | fault t => rfl

end CapsuleOS.Lib.Radix
