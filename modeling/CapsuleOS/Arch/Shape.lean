import CapsuleOS.Arch.Descriptors
import CapsuleOS.Lib.Radix
import CapsuleOS.Memory.VmoBacking

/-!
# The shape of the page tables

All table pages of all trees form a forest: every page has a site, which is the root of the tree it
belongs to and the indices that lead to it. The tables of the upper half are shared by all trees and
belong to no root. `Shaped` says that every table descriptor leads from a site to its child site;
below the root of one tree there is then no table of another.

`Confined` is what a routine may do that works on the tree of `root`: it may add tables from fresh
frames, and it writes no table of another tree. `Grown` says more of a mapping: it removes no reference
to a table, changes of the last level at most the entry of the page that is mapped, and writes no frame
that is in use for something else.
-/
namespace CapsuleOS

open Lib

/-- `owner` is the root of the tree, or nothing for the tables of the upper half. -/
structure Site where
  owner : Option Nat
  path : List Nat
  deriving DecidableEq

namespace Site

def child (σ : Site) (i : Nat) : Site where
  owner := if σ.path = [] ∧ 256 ≤ i then none else σ.owner
  path := σ.path ++ [i]

/-- The entries are references to tables. -/
def Inner (σ : Site) : Prop := σ.path.length < 3

/-- A mapping in the tree of `root` may write here. -/
def Open (root : Nat) (σ : Site) : Prop := σ.owner = some root ∨ σ.owner = none

theorem Open.child {root : Nat} {σ : Site} (h : σ.Open root) (i : Nat) : (σ.child i).Open root := by
  unfold Open Site.child at *
  grind

end Site

def rootSite (root : Nat) : Site := ⟨some root, []⟩

/-- The site of every table page. -/
abbrev Sites := Nat → Option Site

structure Shaped (ty : Sites) (mm : Mm) : Prop where
  wf : mm.WF
  aligned : ∀ p σ, ty p = some σ → pageSize ∣ p
  spent : ∀ p σ, ty p = some σ → mm.Spent p
  owned : ∀ p σ r, ty p = some σ → σ.owner = some r → ty r = some (rootSite r)
  placed : Radix.Placed ref (readPte mm.mem) 512 Site.child Site.Inner ty
  /-- There are no blocks at the root. -/
  root : ∀ p σ, ty p = some σ → σ.path = [] → ∀ i < 512, readPte mm.mem p i = 0 ∨
    (isValid (readPte mm.mem p i) = true ∧ isTable (readPte mm.mem p i) = true)

section Shaped

variable {ty ty' ty'' : Sites} {mm mm' mm'' : Mm} {root : Nat} {target : List Nat}

/-- Memory without tables. -/
theorem Shaped.empty (wf : mm.WF) : Shaped (fun _ => none) mm where
  wf := wf
  aligned _ _ h := nomatch h
  spent _ _ h := nomatch h
  owned _ _ _ h := nomatch h
  placed _ _ h := nomatch h
  root _ _ h := nomatch h

theorem Shaped.still (h : Shaped ty mm) (still : mm.Still mm') : Shaped ty mm' where
  wf := still.wf h.wf
  aligned := h.aligned
  spent p σ hp := still.spent.mpr (h.spent p σ hp)
  owned := h.owned
  placed := by rw [still.mem_eq]; exact h.placed
  root := by rw [still.mem_eq]; exact h.root

structure Confined (root : Nat) (ty : Sites) (mm : Mm) (ty' : Sites) (mm' : Mm) : Prop where
  shaped : Shaped ty' mm'
  le : ∀ p σ, ty p = some σ → ty' p = some σ
  fresh : ∀ p σ, ty' p = some σ → ty p = some σ ∨ (¬ mm.Spent p ∧ σ.Open root)
  spent : ∀ q, mm.Spent q → mm'.Spent q
  frame : ∀ p σ, ty p = some σ → ¬ σ.Open root → mm.mem.SameOn mm'.mem p pageSize

structure Grown (root : Nat) (target : List Nat) (ty : Sites) (mm : Mm) (ty' : Sites) (mm' : Mm) :
    Prop extends Confined root ty mm ty' mm' where
  others : ∀ p, pageSize ∣ p → mm.Spent p → ty p = none → mm.mem.SameOn mm'.mem p pageSize
  keeps : ∀ p σ, ty p = some σ → σ.Inner → ∀ i < 512, ∀ q, ref (readPte mm.mem p i) = some q →
    ref (readPte mm'.mem p i) = some q
  pages : ∀ p σ, ty p = some σ → ¬ σ.Inner → ∀ i < 512, σ.path ++ [i] ≠ target →
    readPte mm'.mem p i = readPte mm.mem p i

theorem Confined.refl (h : Shaped ty mm) : Confined root ty mm ty mm where
  shaped := h
  le _ _ hp := hp
  fresh _ _ hp := Or.inl hp
  spent _ hq := hq
  frame _ _ _ _ := Mem.SameOn.refl _ _ _

theorem Confined.trans (h : Confined root ty mm ty' mm') (h' : Confined root ty' mm' ty'' mm'') :
    Confined root ty mm ty'' mm'' where
  shaped := h'.shaped
  le p σ hp := h'.le p σ (h.le p σ hp)
  fresh p σ hp := by
    rcases h'.fresh p σ hp with old | ⟨new, mine⟩
    · exact h.fresh p σ old
    · exact Or.inr ⟨fun hq => new (h.spent p hq), mine⟩
  spent q hq := h'.spent q (h.spent q hq)
  frame p σ hp foreign := (h.frame p σ hp foreign).trans (h'.frame p σ (h.le p σ hp) foreign)

/-- A frame in use for something else does not become a table. -/
theorem Confined.untyped (h : Confined root ty mm ty' mm') {p : Nat} (hp : mm.Spent p)
    (free : ty p = none) : ty' p = none := by
  cases new : ty' p with
  | none => rfl
  | some σ =>
    rcases h.fresh p σ new with old | ⟨unspent, _⟩
    · rw [free] at old
      cases old
    · exact absurd hp unspent

theorem Confined.still (h : Confined root ty mm ty' mm') (still : mm'.Still mm'') :
    Confined root ty mm ty' mm'' where
  shaped := h.shaped.still still
  le := h.le
  fresh := h.fresh
  spent q hq := still.spent.mpr (h.spent q hq)
  frame := by rw [still.mem_eq]; exact h.frame

theorem Grown.refl (h : Shaped ty mm) : Grown root target ty mm ty mm where
  toConfined := .refl h
  others _ _ _ _ := Mem.SameOn.refl _ _ _
  keeps _ _ _ _ _ _ _ hq := hq
  pages _ _ _ _ _ _ _ := rfl

theorem Grown.trans (h : Grown root target ty mm ty' mm') (h' : Grown root target ty' mm' ty'' mm'') :
    Grown root target ty mm ty'' mm'' where
  toConfined := h.toConfined.trans h'.toConfined
  others p al hp free :=
    (h.others p al hp free).trans (h'.others p al (h.spent p hp) (h.untyped hp free))
  keeps p σ hp inner i hi q hq := h'.keeps p σ (h.le p σ hp) inner i hi q (h.keeps p σ hp inner i hi q hq)
  pages p σ hp leaf i hi ne :=
    (h'.pages p σ (h.le p σ hp) leaf i hi ne).trans (h.pages p σ hp leaf i hi ne)

theorem Grown.still (h : Grown root target ty mm ty' mm') (still : mm'.Still mm'') :
    Grown root target ty mm ty' mm'' where
  toConfined := h.toConfined.still still
  others := by rw [still.mem_eq]; exact h.others
  keeps := by rw [still.mem_eq]; exact h.keeps
  pages := by rw [still.mem_eq]; exact h.pages

theorem Shaped.skipTo (h : Shaped ty mm) {n : Nat} (ge : mm.nextFreePage ≤ n)
    (grid : 4096 ∣ n - mm.nextFreePage) : Shaped ty (mm.skipTo n) :=
  ⟨h.wf.skipTo ge grid, h.aligned, fun p σ hp => (h.spent p σ hp).skipTo ge, h.owned, h.placed, h.root⟩

theorem Grown.skipTo (h : Shaped ty mm) {n : Nat} (ge : mm.nextFreePage ≤ n)
    (grid : 4096 ∣ n - mm.nextFreePage) : Grown root target ty mm ty (mm.skipTo n) where
  shaped := h.skipTo ge grid
  le _ _ hp := hp
  fresh _ _ hp := Or.inl hp
  spent _ hq := hq.skipTo ge
  frame _ _ _ _ := Mem.SameOn.refl _ _ _
  others _ _ _ _ := Mem.SameOn.refl _ _ _
  keeps _ _ _ _ _ _ _ hq := hq
  pages _ _ _ _ _ _ _ := rfl

/-- A routine that writes no table and moves the cursor up. -/
theorem Confined.of_sameOn (h : Shaped ty mm) (wf : mm'.WF) (spent : ∀ q, mm.Spent q → mm'.Spent q)
    (same : ∀ p σ, ty p = some σ → mm.mem.SameOn mm'.mem p pageSize) :
    Confined root ty mm ty mm' where
  shaped := by
    have read : ∀ p σ, ty p = some σ → ∀ i < 512, readPte mm'.mem p i = readPte mm.mem p i :=
      fun p σ hp i hi => readPte_sameOn (same p σ hp) hi
    refine ⟨wf, h.aligned, fun p σ hp => spent p (h.spent p σ hp), h.owned, ?_, ?_⟩
    · intro p σ hp inner i hi q hq
      rw [read p σ hp i hi] at hq
      exact h.placed p σ hp inner i hi q hq
    · intro p σ hp top i hi
      rw [read p σ hp i hi]
      exact h.root p σ hp top i hi
  le _ _ hp := hp
  fresh _ _ hp := Or.inl hp
  spent := spent
  frame p σ hp _ := same p σ hp

/-! ## Writing one entry -/

section Write

variable (h : Shaped ty mm) {p i e : Nat} {σ : Site} (here : ty p = some σ) (hi : i < 512)

include h here hi in
/-- The entries of tables after one of them has been written. -/
theorem entry_writePte {q : Nat} {τ : Site} (hq : ty q = some τ) {j : Nat} (hj : j < 512) :
    (q = p ∧ j = i ∧ τ = σ ∧ readPte (writePte mm.mem p i e) q j = e % 2 ^ 64) ∨
      readPte (writePte mm.mem p i e) q j = readPte mm.mem q j := by
  by_cases page : q = p
  · subst page
    rw [here] at hq
    by_cases idx : j = i
    · subst idx
      exact Or.inl ⟨rfl, rfl, (Option.some.inj hq).symm, readPte_writePte_same _ _ _ _⟩
    · exact Or.inr (readPte_writePte_of_ne idx)
  · exact Or.inr (readPte_sameOn
      (writePte_sameOn (h.aligned p σ here) (h.aligned q τ hq) page hi) hj)

include h here hi in
theorem Confined.write (mine : σ.Open root)
    (inner : σ.Inner → ∀ q, ref e = some q → ty q = some (σ.child i))
    (top : σ.path = [] → isValid e = true ∧ isTable e = true) :
    Confined root ty mm ty (mm.setMem (writePte mm.mem p i e)) := by
  have entry : ∀ q τ, ty q = some τ → ∀ j < 512, _ := fun q τ hq j hj =>
    entry_writePte h here hi (e := e) hq hj
  refine ⟨⟨h.wf.setMem _, h.aligned, h.spent, h.owned, ?_, ?_⟩, fun _ _ hq => hq,
    fun _ _ hq => Or.inl hq, fun _ hq => hq, ?_⟩
  · intro q τ hq hinner j hj r hr
    rw [Mm.setMem_mem] at hr
    rcases entry q τ hq j hj with ⟨rfl, rfl, rfl, new⟩ | same
    · rw [new, ref_mod] at hr
      exact inner hinner r hr
    · rw [same] at hr
      exact h.placed q τ hq hinner j hj r hr
  · intro q τ hq hroot j hj
    rw [Mm.setMem_mem]
    rcases entry q τ hq j hj with ⟨rfl, rfl, rfl, new⟩ | same
    · rw [new, isValid_mod, isTable_mod]
      exact Or.inr (top hroot)
    · rw [same]
      exact h.root q τ hq hroot j hj
  · intro q τ hq foreign
    refine writePte_sameOn (h.aligned p σ here) (h.aligned q τ hq) ?_ hi
    rintro rfl
    rw [here] at hq
    cases hq
    exact foreign mine

include h here hi in
theorem Grown.write (mine : σ.Open root)
    (inner : σ.Inner → ∀ q, ref e = some q → ty q = some (σ.child i))
    (top : σ.path = [] → isValid e = true ∧ isTable e = true)
    (old : σ.Inner → ref (readPte mm.mem p i) = none)
    (leaf : ¬ σ.Inner → σ.path ++ [i] = target) :
    Grown root target ty mm ty (mm.setMem (writePte mm.mem p i e)) where
  toConfined := Confined.write h here hi mine inner top
  others q al _ free := by
    refine writePte_sameOn (h.aligned p σ here) al ?_ hi
    rintro rfl
    rw [here] at free
    cases free
  keeps q τ hq hinner j hj r hr := by
    rw [Mm.setMem_mem]
    rcases entry_writePte h here hi (e := e) hq hj with ⟨rfl, rfl, rfl, _⟩ | same
    · rw [old hinner] at hr
      cases hr
    · rw [same]
      exact hr
  pages q τ hq hleaf j hj ne := by
    rw [Mm.setMem_mem]
    rcases entry_writePte h here hi (e := e) hq hj with ⟨rfl, rfl, rfl, _⟩ | same
    · exact absurd (leaf hleaf) ne
    · exact same

end Write

/-! ## Adding a table -/

/-- A fresh frame becomes the table at a site. Its entries refer to no table. -/
theorem Grown.fresh_table (h : Shaped ty mm) {pa : Nat} (cand : mm.Candidate pa) (tag : PageTag)
    {σ : Site} (mine : σ.Open root)
    (owner : ∀ r, σ.owner = some r → Function.update ty pa (some σ) r = some (rootSite r))
    {mem : Mem} (same : ∀ q, pageSize ∣ q → q ≠ pa → (mm.claim tag pa).mem.SameOn mem q pageSize)
    (entries : σ.Inner → ∀ i < 512, ref (readPte mem pa i) = none)
    (top : σ.path = [] → ∀ i < 512, readPte mem pa i = 0) :
    Grown root target ty mm (Function.update ty pa (some σ)) ((mm.claim tag pa).setMem mem) := by
  have apart : ∀ q τ, ty q = some τ → q ≠ pa := fun q τ hq => cand.not_spent (h.spent q τ hq)
  have kept : ∀ q, pageSize ∣ q → mm.Spent q → mm.mem.SameOn mem q pageSize := fun q al hq =>
    (Vmo.claim_sameOn tag h.wf cand hq al).trans (same q al (cand.not_spent hq))
  have read : ∀ q τ, ty q = some τ → ∀ i < 512, readPte mem q i = readPte mm.mem q i :=
    fun q τ hq i hi => readPte_sameOn (kept q (h.aligned q τ hq) (h.spent q τ hq)) hi
  have look : ∀ q τ, Function.update ty pa (some σ) q = some τ →
      (q = pa ∧ τ = σ) ∨ (q ≠ pa ∧ ty q = some τ) := by
    intro q τ hq
    by_cases eq : q = pa
    · subst eq
      rw [Function.update_self] at hq
      exact Or.inl ⟨rfl, (Option.some.inj hq).symm⟩
    · rw [Function.update_of_ne eq] at hq
      exact Or.inr ⟨eq, hq⟩
  have grow : ∀ q τ, ty q = some τ → Function.update ty pa (some σ) q = some τ := by
    intro q τ hq
    rw [Function.update_of_ne (apart q τ hq)]
    exact hq
  refine ⟨⟨⟨(h.wf.claim cand).setMem _, ?_, ?_, ?_, ?_, ?_⟩, grow, ?_,
    fun q hq => hq.claim tag cand, ?_⟩, ?_, ?_, ?_⟩
  · intro q τ hq
    rcases look q τ hq with ⟨rfl, _⟩ | ⟨_, old⟩
    · exact cand.aligned h.wf
    · exact h.aligned q τ old
  · intro q τ hq
    rcases look q τ hq with ⟨rfl, _⟩ | ⟨_, old⟩
    · exact mm.spent_claim_self tag q
    · exact (h.spent q τ old).claim tag cand
  · intro q τ r hq hr
    rcases look q τ hq with ⟨rfl, rfl⟩ | ⟨_, old⟩
    · exact owner r hr
    · exact grow _ _ (h.owned q τ r old hr)
  · intro q τ hq hinner i hi r hr
    rw [Mm.setMem_mem] at hr
    rcases look q τ hq with ⟨rfl, rfl⟩ | ⟨_, old⟩
    · rw [entries hinner i hi] at hr
      cases hr
    · rw [read q τ old i hi] at hr
      exact grow _ _ (h.placed q τ old hinner i hi r hr)
  · intro q τ hq hroot i hi
    rw [Mm.setMem_mem]
    rcases look q τ hq with ⟨rfl, rfl⟩ | ⟨_, old⟩
    · exact Or.inl (top hroot i hi)
    · rw [read q τ old i hi]
      exact h.root q τ old hroot i hi
  · intro q τ hq
    rcases look q τ hq with ⟨rfl, rfl⟩ | ⟨_, old⟩
    · exact Or.inr ⟨fun spent => cand.not_spent spent rfl, mine⟩
    · exact Or.inl old
  · intro q τ hq _
    exact kept q (h.aligned q τ hq) (h.spent q τ hq)
  · intro q al hq _
    exact kept q al hq
  · intro q τ hq _ i hi r hr
    rw [Mm.setMem_mem, read q τ hq i hi]
    exact hr
  · intro q τ hq _ i hi _
    rw [Mm.setMem_mem, read q τ hq i hi]

/-- A fresh table is linked into an entry that referred to none. -/
theorem Grown.link (h : Shaped ty mm) {pa table idx : Nat} {σ : Site} (cand : mm.Candidate pa)
    (tag : PageTag) (here : ty table = some σ) (inner : σ.Inner) (mine : σ.Open root)
    (hidx : idx < 512) (old : ref (readPte mm.mem table idx) = none) {mem : Mem}
    (same : ∀ q, pageSize ∣ q → q ≠ pa → (mm.claim tag pa).mem.SameOn mem q pageSize)
    (entries : (σ.child idx).Inner → ∀ i < 512, ref (readPte mem pa i) = none) :
    Grown root target ty mm (Function.update ty pa (some (σ.child idx)))
      ((mm.claim tag pa).setMem (writePte mem table idx (tableEntry pa))) := by
  have root_ne : ∀ r, ty r = some (rootSite r) → r ≠ pa := fun r hr =>
    cand.not_spent (h.spent r _ hr)
  have first : Grown root target _ _ _ _ := Grown.fresh_table h cand tag (mine.child idx)
    (fun r hr => by
      have typed : ty r = some (rootSite r) := by
        refine h.owned table σ r here ?_
        unfold Site.child at hr
        grind
      rw [Function.update_of_ne (root_ne r typed)]
      exact typed)
    same entries (fun nil => absurd nil (by simp [Site.child]))
  have linked := ref_tableEntry (cand.aligned h.wf) cand.lt_addr
  have al := h.aligned table σ here
  have read : readPte mem table idx = readPte mm.mem table idx :=
    readPte_sameOn ((Vmo.claim_sameOn tag h.wf cand (h.spent table σ here) al).trans
      (same table al (cand.not_spent (h.spent table σ here)))) hidx
  refine first.trans (Grown.write first.shaped (first.le table σ here) hidx mine ?_ ?_ ?_ ?_)
  · intro _ q hq
    rw [linked] at hq
    cases hq
    exact Function.update_self _ _ _
  · intro _
    exact ⟨isValid_tableEntry pa, isTable_tableEntry pa⟩
  · intro _
    rw [Mm.setMem_mem, read]
    exact old
  · intro leaf
    exact absurd inner leaf

end Shaped

end CapsuleOS
