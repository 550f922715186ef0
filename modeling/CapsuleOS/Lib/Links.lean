import Mathlib.Tactic

/-!
# Linked lists in an array

Cells that name the next cell of a list. `Seg` describes the part of a list between two links by the
cells it passes and the values in them; segments compose as lists append. `Path` is the same for links
that stand alone.
-/
namespace CapsuleOS.Lib.Links

variable {α β : Type} {n : Nat} (value : β → α) (next : β → Option (Fin n))

/-- Following the links from the first link one passes the cells of the path, with these values, and
arrives at the last link. -/
def Seg (cells : Fin n → Option β) : Option (Fin n) → List (Fin n × α) → Option (Fin n) → Prop
  | l, [], l' => l = l'
  | l, (i, a) :: path, l' =>
    l = some i ∧ ∃ w, cells i = some w ∧ value w = a ∧ Seg cells (next w) path l'

variable {value next} {cells cells' : Fin n → Option β} {l l' : Option (Fin n)}
  {p q : List (Fin n × α)} {i : Fin n} {a : α}

theorem seg_append {l'' : Option (Fin n)} :
    Seg value next cells l (p ++ q) l'' ↔
      ∃ l', Seg value next cells l p l' ∧ Seg value next cells l' q l'' := by
  induction p generalizing l with
  | nil => simp [Seg]
  | cons x p ih =>
    obtain ⟨j, b⟩ := x
    simp only [List.cons_append, Seg, ih]
    grind

theorem seg_single : Seg value next cells l [(i, a)] l' ↔
    l = some i ∧ ∃ w, cells i = some w ∧ value w = a ∧ next w = l' := Iff.rfl

/-- Only the cells of the path matter. -/
theorem Seg.congr (h : Seg value next cells l p l') (same : ∀ x ∈ p, cells' x.1 = cells x.1) :
    Seg value next cells' l p l' := by
  induction p generalizing l with
  | nil => exact h
  | cons x p ih =>
    obtain ⟨start, w, cell, val, rest⟩ := h
    refine ⟨start, w, ?_, val, ih rest fun y mem => same y (List.mem_cons_of_mem _ mem)⟩
    rw [same x List.mem_cons_self, cell]

theorem Seg.update (h : Seg value next cells l p l') (away : i ∉ p.map (·.1)) (w : Option β) :
    Seg value next (Function.update cells i w) l p l' := by
  refine h.congr fun x mem => Function.update_of_ne ?_ _ _
  rintro rfl
  exact away (List.mem_map_of_mem mem)

theorem Seg.start (h : Seg value next cells l p none) : l = p.head?.map (·.1) := by
  cases p with
  | nil => exact h
  | cons x p => exact h.1

/-- The last cell of a segment leads to where the segment arrives. -/
theorem Seg.last (h : Seg value next cells l (p ++ [(i, a)]) l') :
    Seg value next cells l p (some i) ∧ ∃ w, cells i = some w ∧ value w = a ∧ next w = l' := by
  obtain ⟨mid, first, rfl, last⟩ := seg_append.mp h
  exact ⟨first, last⟩

/-! ## Links without cells -/

section Path

variable {ι : Type}

/-- Following the links from the first link one passes these nodes and arrives at the last link. -/
def Path (next : ι → Option ι) : Option ι → List ι → Option ι → Prop
  | l, [], l' => l = l'
  | l, i :: is, l' => l = some i ∧ Path next (next i) is l'

variable {next next' : ι → Option ι} {l l' : Option ι} {p q : List ι} {i : ι}

theorem path_append {l'' : Option ι} :
    Path next l (p ++ q) l'' ↔ ∃ l', Path next l p l' ∧ Path next l' q l'' := by
  induction p generalizing l with
  | nil => simp [Path]
  | cons j p ih =>
    simp only [List.cons_append, Path, ih]
    grind

/-- Only the links of the nodes on the path matter. -/
theorem Path.congr (h : Path next l p l') (same : ∀ i ∈ p, next' i = next i) : Path next' l p l' := by
  induction p generalizing l with
  | nil => exact h
  | cons i p ih =>
    refine ⟨h.1, ?_⟩
    rw [same i List.mem_cons_self]
    exact ih h.2 fun j mem => same j (List.mem_cons_of_mem _ mem)

theorem Path.update [DecidableEq ι] (h : Path next l p l') (away : i ∉ p) (link : Option ι) :
    Path (Function.update next i link) l p l' :=
  h.congr fun _ mem => Function.update_of_ne (ne_of_mem_of_not_mem mem away) _ _

theorem Path.start (h : Path next l p none) : l = p.head? := by
  cases p with
  | nil => exact h
  | cons i p => exact h.1

theorem Path.last (h : Path next l (p ++ [i]) l') : Path next l p (some i) ∧ next i = l' := by
  obtain ⟨mid, first, rfl, last⟩ := path_append.mp h
  exact ⟨first, last⟩

/-- Append a node that has no link. -/
theorem Path.snoc [DecidableEq ι] {k : ι} (h : Path next l (p ++ [k]) none) (nodup : (p ++ [k]).Nodup)
    (away : i ∉ p ++ [k]) (free : next i = none) :
    Path (Function.update next k (some i)) l (p ++ [k] ++ [i]) none := by
  obtain ⟨before, _⟩ := h.last
  have k_not : k ∉ p := fun mem => List.disjoint_of_nodup_append nodup mem (by simp)
  have ne : i ≠ k := fun eq => away (by simp [eq])
  refine path_append.mpr ⟨some i, path_append.mpr ⟨some k, before.update k_not _, rfl, ?_⟩, rfl, ?_⟩
  · exact Function.update_self _ _ _
  · exact (Function.update_of_ne ne _ _).trans free

/-- Take a node out that is not the first. -/
theorem Path.unlink [DecidableEq ι] {k : ι} (h : Path next l (p ++ [k] ++ i :: q) none)
    (nodup : (p ++ [k] ++ i :: q).Nodup) :
    Path (Function.update next k (next i)) l (p ++ [k] ++ q) none := by
  obtain ⟨mid, first, rfl, rest⟩ := path_append.mp h
  obtain ⟨before, _⟩ := first.last
  have apart := List.disjoint_of_nodup_append nodup
  have k_not : k ∉ p := fun mem =>
    List.disjoint_of_nodup_append (List.nodup_append.mp nodup).1 mem (by simp)
  have k_not' : k ∉ q := fun mem => apart (by simp) (List.mem_cons_of_mem i mem)
  refine path_append.mpr ⟨next i, path_append.mpr ⟨some k, before.update k_not _, rfl, ?_⟩,
    rest.update k_not' _⟩
  exact Function.update_self _ _ _

/-- A node that leads to itself is on no path that ends. -/
theorem Path.no_circle (h : Path next (some i) p none) (circle : next i = some i) : False := by
  induction p with
  | nil => cases h
  | cons j p ih =>
    obtain ⟨eq, rest⟩ := h
    obtain rfl : i = j := Option.some.inj eq
    rw [circle] at rest
    exact ih rest

/-- Nodes each of which leads to the next one, the last one nowhere. -/
theorem path_range {f : Nat → ι} {n : Nat} (step : ∀ i, i + 1 < n → next (f i) = some (f (i + 1)))
    (last : ∀ i, i + 1 = n → next (f i) = none) (pos : 0 < n) :
    Path next (some (f 0)) ((List.range n).map f) none := by
  induction n generalizing f with
  | zero => omega
  | succ n ih =>
    rw [List.range_succ_eq_map, List.map_cons, List.map_map]
    refine ⟨rfl, ?_⟩
    cases n with
    | zero => exact last 0 rfl
    | succ n =>
      rw [step 0 (by omega)]
      exact ih (fun i lt => step (i + 1) (by omega)) (fun i eq => last (i + 1) (by omega)) (by omega)

end Path

end CapsuleOS.Lib.Links
