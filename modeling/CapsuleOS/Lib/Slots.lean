import Mathlib.Tactic

/-!
# Fixed arrays of optional cells

Tables of a fixed number of cells, each empty or holding a value, searched linearly from the
front. Two disciplines share the representation: a sparse table (insert into the first empty
cell, remove by predicate) and a waiting line (push into the first empty cell, pop the first
occupied one and shift the rest to the left).

`occupants` forgets the empty cells. Sparse tables are described up to permutation of the
occupants; waiting lines are described exactly, by `Packed`. In a table whose values have distinct
keys a search by key leads to one cell.
-/
namespace CapsuleOS.Lib

/-- `n` cells, each empty or holding a value. -/
structure Slots (α : Type) (n : Nat) where
  cells : List (Option α)
  size_eq : cells.length = n

namespace Cells

variable {α : Type}

/-- Put a value into the first empty cell. -/
def insertFirst (a : α) : List (Option α) → Option (List (Option α))
  | [] => none
  | none :: cs => some (some a :: cs)
  | some b :: cs => (insertFirst a cs).map (some b :: ·)

/-- The first value satisfying `p`. -/
def findFirst (p : α → Bool) : List (Option α) → Option α
  | [] => none
  | none :: cs => findFirst p cs
  | some b :: cs => if p b then some b else findFirst p cs

/-- Remove the first value satisfying `p`, leaving its cell empty. -/
def takeFirst (p : α → Bool) : List (Option α) → Option (α × List (Option α))
  | [] => none
  | none :: cs => (takeFirst p cs).map fun r => (r.1, none :: r.2)
  | some b :: cs =>
    if p b then some (b, none :: cs) else (takeFirst p cs).map fun r => (r.1, some b :: r.2)

/-- Apply `f` to the first value satisfying `p`. -/
def modifyFirst (p : α → Bool) (f : α → α) : List (Option α) → List (Option α)
  | [] => []
  | none :: cs => none :: modifyFirst p f cs
  | some b :: cs => if p b then some (f b) :: cs else some b :: modifyFirst p f cs

/-- Remove the first value satisfying `p` and shift the cells behind it to the left. -/
def extractFirst (p : α → Bool) : List (Option α) → Option (α × List (Option α))
  | [] => none
  | none :: cs => (extractFirst p cs).map fun r => (r.1, none :: r.2)
  | some b :: cs =>
    if p b then some (b, cs ++ [none]) else (extractFirst p cs).map fun r => (r.1, some b :: r.2)

/-- The values held, in cell order. -/
def occupants (cs : List (Option α)) : List α := cs.filterMap id

@[simp] theorem occupants_nil : occupants ([] : List (Option α)) = [] := rfl

@[simp] theorem occupants_none_cons (cs : List (Option α)) :
    occupants (none :: cs) = occupants cs := rfl

@[simp] theorem occupants_some_cons (a : α) (cs : List (Option α)) :
    occupants (some a :: cs) = a :: occupants cs := rfl

@[simp] theorem occupants_append (cs ds : List (Option α)) :
    occupants (cs ++ ds) = occupants cs ++ occupants ds := List.filterMap_append

theorem occupants_length_le (cs : List (Option α)) : (occupants cs).length ≤ cs.length :=
  List.length_filterMap_le _ _

theorem mem_occupants {a : α} {cs : List (Option α)} : a ∈ occupants cs ↔ some a ∈ cs := by
  simp [occupants]

theorem insertFirst_length {a : α} {cs ds : List (Option α)} (h : insertFirst a cs = some ds) :
    ds.length = cs.length := by
  induction cs generalizing ds with
  | nil => simp [insertFirst] at h
  | cons c cs ih =>
    cases c with
    | none => simp [insertFirst] at h; simp [← h]
    | some b =>
      obtain ⟨es, hes, rfl⟩ := Option.map_eq_some_iff.mp h
      simp [ih hes]

theorem insertFirst_eq_none {a : α} {cs : List (Option α)} :
    insertFirst a cs = none ↔ (occupants cs).length = cs.length := by
  induction cs with
  | nil => simp [insertFirst]
  | cons c cs ih =>
    cases c with
    | none =>
      have := occupants_length_le cs
      simp [insertFirst]
      omega
    | some b => simp [insertFirst, ih]

theorem insertFirst_perm {a : α} {cs ds : List (Option α)} (h : insertFirst a cs = some ds) :
    (occupants ds).Perm (a :: occupants cs) := by
  induction cs generalizing ds with
  | nil => simp [insertFirst] at h
  | cons c cs ih =>
    cases c with
    | none => simp [insertFirst] at h; simp [← h]
    | some b =>
      obtain ⟨es, hes, rfl⟩ := Option.map_eq_some_iff.mp h
      exact ((ih hes).cons b).trans (List.Perm.swap a b _)

theorem findFirst_eq_find (p : α → Bool) (cs : List (Option α)) :
    findFirst p cs = (occupants cs).find? p := by
  induction cs with
  | nil => rfl
  | cons c cs ih =>
    cases c with
    | none => simpa [findFirst] using ih
    | some b => by_cases hb : p b <;> simp [findFirst, hb, ih]

theorem takeFirst_length {p : α → Bool} {cs ds : List (Option α)} {b : α}
    (h : takeFirst p cs = some (b, ds)) : ds.length = cs.length := by
  induction cs generalizing ds with
  | nil => simp [takeFirst] at h
  | cons c cs ih =>
    cases c with
    | none =>
      obtain ⟨⟨b', es⟩, hes, heq⟩ := Option.map_eq_some_iff.mp h
      cases heq
      simp [ih hes]
    | some a =>
      by_cases ha : p a
      · simp [takeFirst, ha] at h
        simp [← h.2]
      · simp only [takeFirst, ha, Bool.false_eq_true, ↓reduceIte] at h
        obtain ⟨⟨b', es⟩, hes, heq⟩ := Option.map_eq_some_iff.mp h
        cases heq
        simp [ih hes]

/-- A removal takes the value that a search finds and keeps the others. -/
theorem takeFirst_spec {p : α → Bool} {cs ds : List (Option α)} {b : α}
    (h : takeFirst p cs = some (b, ds)) :
    findFirst p cs = some b ∧ (occupants cs).Perm (b :: occupants ds) := by
  induction cs generalizing ds with
  | nil => simp [takeFirst] at h
  | cons c cs ih =>
    cases c with
    | none =>
      obtain ⟨⟨b', es⟩, hes, heq⟩ := Option.map_eq_some_iff.mp h
      cases heq
      have rest := ih hes
      exact ⟨rest.1, rest.2⟩
    | some a =>
      by_cases ha : p a
      · simp [takeFirst, ha] at h
        obtain ⟨rfl, rfl⟩ := h
        simp [findFirst, ha]
      · simp only [takeFirst, ha, Bool.false_eq_true, ↓reduceIte] at h
        obtain ⟨⟨b', es⟩, hes, heq⟩ := Option.map_eq_some_iff.mp h
        cases heq
        obtain ⟨hfind, hperm⟩ := ih hes
        refine ⟨by simp [findFirst, ha, hfind], ?_⟩
        exact (hperm.cons a).trans (List.Perm.swap b' a _)

/-- An insertion writes one cell, an empty one. -/
theorem insertFirst_set {a : α} {cs ds : List (Option α)} (h : insertFirst a cs = some ds) :
    ∃ i, cs[i]? = some none ∧ ds = cs.set i (some a) := by
  induction cs generalizing ds with
  | nil => simp [insertFirst] at h
  | cons c cs ih =>
    cases c with
    | none => exact ⟨0, rfl, by simpa [insertFirst, eq_comm] using h⟩
    | some b =>
      obtain ⟨es, hes, rfl⟩ := Option.map_eq_some_iff.mp h
      obtain ⟨i, free, rfl⟩ := ih hes
      exact ⟨i + 1, free, rfl⟩

/-- A removal empties one cell. -/
theorem takeFirst_set {p : α → Bool} {cs ds : List (Option α)} {b : α}
    (h : takeFirst p cs = some (b, ds)) : ∃ i, cs[i]? = some (some b) ∧ ds = cs.set i none := by
  induction cs generalizing ds with
  | nil => simp [takeFirst] at h
  | cons c cs ih =>
    cases c with
    | none =>
      obtain ⟨⟨b', es⟩, hes, heq⟩ := Option.map_eq_some_iff.mp h
      cases heq
      obtain ⟨i, full, rfl⟩ := ih hes
      exact ⟨i + 1, full, rfl⟩
    | some a =>
      by_cases ha : p a
      · simp only [takeFirst, ha, if_true, Option.some.injEq, Prod.mk.injEq] at h
        obtain ⟨rfl, rfl⟩ := h
        exact ⟨0, rfl, rfl⟩
      · simp only [takeFirst, ha, Bool.false_eq_true, ↓reduceIte] at h
        obtain ⟨⟨b', es⟩, hes, heq⟩ := Option.map_eq_some_iff.mp h
        cases heq
        obtain ⟨i, full, rfl⟩ := ih hes
        exact ⟨i + 1, full, rfl⟩

theorem takeFirst_eq_none {p : α → Bool} {cs : List (Option α)} :
    takeFirst p cs = none ↔ findFirst p cs = none := by
  induction cs with
  | nil => simp [takeFirst, findFirst]
  | cons c cs ih =>
    cases c with
    | none => simpa [takeFirst, findFirst] using ih
    | some a => by_cases ha : p a <;> simp [takeFirst, findFirst, ha, ih]

@[simp] theorem modifyFirst_length (p : α → Bool) (f : α → α) (cs : List (Option α)) :
    (modifyFirst p f cs).length = cs.length := by
  induction cs with
  | nil => rfl
  | cons c cs ih =>
    cases c with
    | none => simp [modifyFirst, ih]
    | some b => by_cases hb : p b <;> simp [modifyFirst, hb, ih]

/-- An update changes the first value it selects and nothing else. -/
theorem occupants_modifyFirst (p : α → Bool) (f : α → α) (cs : List (Option α)) :
    ((∀ a ∈ occupants cs, ¬ p a) ∧ occupants (modifyFirst p f cs) = occupants cs) ∨
      ∃ l a r, occupants cs = l ++ a :: r ∧ (∀ b ∈ l, ¬ p b) ∧ p a ∧
        occupants (modifyFirst p f cs) = l ++ f a :: r := by
  induction cs with
  | nil => exact Or.inl ⟨by simp, rfl⟩
  | cons c cs ih =>
    cases c with
    | none => simpa [modifyFirst] using ih
    | some b =>
      by_cases hb : p b
      · exact Or.inr ⟨[], b, occupants cs, by simp [modifyFirst, hb]⟩
      · rcases ih with ⟨out, same⟩ | ⟨l, a, r, eq, out, ha, eq'⟩
        · left
          simpa [modifyFirst, hb, same] using out
        · right
          exact ⟨b :: l, a, r, by simp [eq], by simpa [hb] using out, ha, by simp [modifyFirst, hb, eq']⟩

theorem findFirst_modifyFirst_of_disjoint {p q : α → Bool} {f : α → α}
    (hpq : ∀ a, p a → q a = false) (hf : ∀ a, p a → q (f a) = false) (cs : List (Option α)) :
    findFirst q (modifyFirst p f cs) = findFirst q cs := by
  induction cs with
  | nil => rfl
  | cons c cs ih =>
    cases c with
    | none => simpa [modifyFirst, findFirst] using ih
    | some b => by_cases hb : p b <;> simp [modifyFirst, findFirst, hb, hpq b, hf b, ih]

/-- Searching by a weaker predicate than the one that selected the update: the found value is
updated when it was the selected one. -/
theorem findFirst_modifyFirst_sub {p q : α → Bool} {f : α → α} (hpq : ∀ a, p a → q a)
    (hf : ∀ a, p a → q (f a)) (cs : List (Option α)) :
    findFirst q (modifyFirst p f cs) =
      (findFirst q cs).map fun a => if p a then f a else a := by
  induction cs with
  | nil => rfl
  | cons c cs ih =>
    cases c with
    | none => simpa [modifyFirst, findFirst] using ih
    | some b =>
      by_cases hb : p b
      · simp [modifyFirst, findFirst, hb, hpq b hb, hf b hb]
      · by_cases hq : q b <;> simp [modifyFirst, findFirst, hb, hq, ih]

/-- An update writes the cell that a search finds. -/
theorem modifyFirst_set {p : α → Bool} (f : α → α) {cs : List (Option α)} {b : α} (h : findFirst p cs = some b) :
    ∃ i, cs[i]? = some (some b) ∧ modifyFirst p f cs = cs.set i (some (f b)) := by
  induction cs with
  | nil => cases h
  | cons c cs ih =>
    cases c with
    | none =>
      obtain ⟨i, here, eq⟩ := ih h
      exact ⟨i + 1, here, congrArg _ eq⟩
    | some a =>
      rw [findFirst] at h
      rw [modifyFirst]
      split_ifs at h ⊢ with fits
      · cases h
        exact ⟨0, rfl, rfl⟩
      · obtain ⟨i, here, eq⟩ := ih h
        exact ⟨i + 1, here, congrArg _ eq⟩

theorem modifyFirst_getElem? {p : α → Bool} {f : α → α} {cs : List (Option α)} {i : Nat} {b : α}
    (h : cs[i]? = some (some b)) :
    ∃ b', (modifyFirst p f cs)[i]? = some (some b') ∧ (b' = b ∨ (p b ∧ b' = f b)) := by
  induction cs generalizing i with
  | nil => simp at h
  | cons c cs ih =>
    cases i with
    | zero =>
      cases c with
      | none => simp at h
      | some c =>
        obtain rfl : c = b := by simpa using h
        by_cases hp : p c
        · exact ⟨f c, by simp [modifyFirst, hp], Or.inr ⟨hp, rfl⟩⟩
        · exact ⟨c, by simp [modifyFirst, hp], Or.inl rfl⟩
    | succ i =>
      have rest : cs[i]? = some (some b) := by simpa using h
      cases c with
      | none => simpa [modifyFirst] using ih rest
      | some c =>
        by_cases hp : p c
        · exact ⟨b, by simp [modifyFirst, hp, rest], Or.inl rfl⟩
        · simpa [modifyFirst, hp] using ih rest

/-- Emptying a cell drops its value and keeps the others. -/
theorem occupants_set_none {cs : List (Option α)} {i : Nat} {a : α} (h : cs[i]? = some (some a)) :
    (occupants cs).Perm (a :: occupants (cs.set i none)) := by
  induction cs generalizing i with
  | nil => simp at h
  | cons c cs ih =>
    cases i with
    | zero =>
      obtain rfl : c = some a := by simpa using h
      exact .refl _
    | succ i =>
      have rest := ih (i := i) (by simpa using h)
      cases c with
      | none => exact rest
      | some b => exact (rest.cons b).trans (List.Perm.swap a b _)

theorem occupants_map (f : α → α) (cs : List (Option α)) :
    occupants (cs.map (Option.map f)) = (occupants cs).map f := by
  induction cs with
  | nil => rfl
  | cons c cs ih => cases c <;> simp [ih]

/-! ### A cell that is the only one to match -/

/-- The value `b` in cell `i` satisfies `p`, and no other value does. -/
structure OnlyAt (p : α → Bool) (cs : List (Option α)) (i : Nat) (b : α) : Prop where
  here : cs[i]? = some (some b)
  holds : p b
  unique : ∀ j c, cs[j]? = some (some c) → p c → j = i

theorem OnlyAt.tail {p : α → Bool} {c : Option α} {cs : List (Option α)} {i : Nat} {b : α}
    (h : OnlyAt p (c :: cs) (i + 1) b) : OnlyAt p cs i b ∧ ∀ a, c = some a → ¬ p a := by
  refine ⟨⟨by simpa using h.here, h.holds, fun j a at_j pa => ?_⟩, fun a eq pa => ?_⟩
  · have := h.unique (j + 1) a (by simpa using at_j) pa
    omega
  · have := h.unique 0 a (by simp [eq]) pa
    omega

theorem OnlyAt.findFirst {p : α → Bool} {cs : List (Option α)} {i : Nat} {b : α}
    (h : OnlyAt p cs i b) : findFirst p cs = some b := by
  induction cs generalizing i with
  | nil => exact absurd h.here (by simp)
  | cons c cs ih =>
    cases i with
    | zero =>
      obtain rfl : c = some b := by simpa using h.here
      simp [Cells.findFirst, h.holds]
    | succ i =>
      obtain ⟨rest, other⟩ := h.tail
      cases c with
      | none => exact ih rest
      | some a => simpa [Cells.findFirst, other a rfl] using ih rest

theorem OnlyAt.takeFirst {p : α → Bool} {cs : List (Option α)} {i : Nat} {b : α}
    (h : OnlyAt p cs i b) : takeFirst p cs = some (b, cs.set i none) := by
  induction cs generalizing i with
  | nil => exact absurd h.here (by simp)
  | cons c cs ih =>
    cases i with
    | zero =>
      obtain rfl : c = some b := by simpa using h.here
      simp [Cells.takeFirst, h.holds]
    | succ i =>
      obtain ⟨rest, other⟩ := h.tail
      cases c with
      | none => simp [Cells.takeFirst, ih rest]
      | some a => simp [Cells.takeFirst, other a rfl, ih rest]

theorem OnlyAt.modifyFirst {p : α → Bool} {f : α → α} {cs : List (Option α)} {i : Nat} {b : α}
    (h : OnlyAt p cs i b) : modifyFirst p f cs = cs.set i (some (f b)) := by
  induction cs generalizing i with
  | nil => exact absurd h.here (by simp)
  | cons c cs ih =>
    cases i with
    | zero =>
      obtain rfl : c = some b := by simpa using h.here
      simp [Cells.modifyFirst, h.holds]
    | succ i =>
      obtain ⟨rest, other⟩ := h.tail
      cases c with
      | none => simp [Cells.modifyFirst, ih rest]
      | some a => simp [Cells.modifyFirst, other a rfl, ih rest]

theorem extractFirst_length {p : α → Bool} {cs ds : List (Option α)} {b : α}
    (h : extractFirst p cs = some (b, ds)) : ds.length = cs.length := by
  induction cs generalizing ds with
  | nil => simp [extractFirst] at h
  | cons c cs ih =>
    cases c with
    | none =>
      obtain ⟨⟨b', es⟩, hes, heq⟩ := Option.map_eq_some_iff.mp h
      cases heq
      simp [ih hes]
    | some a =>
      by_cases ha : p a
      · simp [extractFirst, ha] at h
        simp [← h.2]
      · simp only [extractFirst, ha, Bool.false_eq_true, ↓reduceIte] at h
        obtain ⟨⟨b', es⟩, hes, heq⟩ := Option.map_eq_some_iff.mp h
        cases heq
        simp [ih hes]

theorem extractFirst_perm {p : α → Bool} {cs ds : List (Option α)} {b : α}
    (h : extractFirst p cs = some (b, ds)) : p b ∧ (occupants cs).Perm (b :: occupants ds) := by
  induction cs generalizing ds with
  | nil => simp [extractFirst] at h
  | cons c cs ih =>
    cases c with
    | none =>
      obtain ⟨⟨b', es⟩, hes, heq⟩ := Option.map_eq_some_iff.mp h
      cases heq
      simpa using ih hes
    | some a =>
      by_cases ha : p a
      · simp only [extractFirst, ha, if_true, Option.some.injEq, Prod.mk.injEq] at h
        obtain ⟨rfl, rfl⟩ := h
        simp [ha]
      · simp only [extractFirst, ha, Bool.false_eq_true, ↓reduceIte] at h
        obtain ⟨⟨b', es⟩, hes, heq⟩ := Option.map_eq_some_iff.mp h
        cases heq
        obtain ⟨hb, perm⟩ := ih hes
        exact ⟨hb, by simpa using (perm.cons a).trans (List.Perm.swap _ _ _)⟩

theorem extractFirst_eq_none {p : α → Bool} {cs : List (Option α)} (h : extractFirst p cs = none) :
    ∀ a ∈ occupants cs, ¬ p a := by
  induction cs with
  | nil => simp
  | cons c cs ih =>
    cases c with
    | none => simpa [occupants] using ih (Option.map_eq_none_iff.mp h)
    | some b =>
      by_cases hb : p b
      · simp [extractFirst, hb] at h
      · simp only [extractFirst, hb, Bool.false_eq_true, ↓reduceIte] at h
        simpa [hb] using ih (Option.map_eq_none_iff.mp h)

end Cells

namespace Slots

variable {α : Type} {n : Nat}

theorem ext {s t : Slots α n} (h : s.cells = t.cells) : s = t := by
  cases s; cases t; cases h; rfl

instance [DecidableEq α] : DecidableEq (Slots α n) := fun s t =>
  decidable_of_iff (s.cells = t.cells) ⟨ext, fun h => h ▸ rfl⟩

def empty : Slots α n := ⟨List.replicate n none, List.length_replicate⟩

def occupants (s : Slots α n) : List α := Cells.occupants s.cells

def insert? (s : Slots α n) (a : α) : Option (Slots α n) :=
  match h : Cells.insertFirst a s.cells with
  | none => none
  | some cs => some ⟨cs, (Cells.insertFirst_length h).trans s.size_eq⟩

def find? (s : Slots α n) (p : α → Bool) : Option α := Cells.findFirst p s.cells

def take? (s : Slots α n) (p : α → Bool) : Option (α × Slots α n) :=
  match h : Cells.takeFirst p s.cells with
  | none => none
  | some (b, cs) => some (b, ⟨cs, (Cells.takeFirst_length h).trans s.size_eq⟩)

def modify (s : Slots α n) (p : α → Bool) (f : α → α) : Slots α n :=
  ⟨Cells.modifyFirst p f s.cells, (Cells.modifyFirst_length p f s.cells).trans s.size_eq⟩

/-- Apply `f` to every value. -/
def map (s : Slots α n) (f : α → α) : Slots α n :=
  ⟨s.cells.map (Option.map f), by rw [List.length_map, s.size_eq]⟩

/-- Remove the first value satisfying `p` and close the gap it leaves. -/
def extract? (s : Slots α n) (p : α → Bool) : Option (α × Slots α n) :=
  match h : Cells.extractFirst p s.cells with
  | none => none
  | some (b, cs) => some (b, ⟨cs, (Cells.extractFirst_length h).trans s.size_eq⟩)

/-- Pop the first value and shift the line. -/
def pop? (s : Slots α n) : Option (α × Slots α n) := s.extract? fun _ => true

def Full (s : Slots α n) : Prop := s.occupants.length = n

instance (s : Slots α n) : Decidable s.Full := inferInstanceAs (Decidable (_ = _))

@[simp] theorem occupants_empty : (empty : Slots α n).occupants = [] := by
  simp [empty, occupants, Cells.occupants]

theorem occupants_length_le (s : Slots α n) : s.occupants.length ≤ n := by
  have := Cells.occupants_length_le s.cells
  rwa [s.size_eq] at this

theorem insert?_eq_none {s : Slots α n} {a : α} : s.insert? a = none ↔ s.Full := by
  have key : Cells.insertFirst a s.cells = none ↔ _ := Cells.insertFirst_eq_none
  rw [s.size_eq] at key
  unfold insert?
  split
  case _ h => exact iff_of_true rfl (key.mp h)
  case _ cs h =>
    refine iff_of_false (by simp) fun hfull => ?_
    simp [key.mpr hfull] at h

theorem insert?_cells {s t : Slots α n} {a : α} (h : s.insert? a = some t) :
    Cells.insertFirst a s.cells = some t.cells := by
  unfold insert? at h
  split at h
  · cases h
  · rename_i cs hcs
    cases h
    exact hcs

theorem insert?_perm {s t : Slots α n} {a : α} (h : s.insert? a = some t) :
    t.occupants.Perm (a :: s.occupants) := Cells.insertFirst_perm (insert?_cells h)

theorem insert?_set {s t : Slots α n} {a : α} (h : s.insert? a = some t) :
    ∃ i, s.cells[i]? = some none ∧ t.cells = s.cells.set i (some a) :=
  Cells.insertFirst_set (insert?_cells h)

theorem find?_eq (s : Slots α n) (p : α → Bool) : s.find? p = s.occupants.find? p :=
  Cells.findFirst_eq_find p s.cells

theorem take?_cells {s t : Slots α n} {p : α → Bool} {b : α} (h : s.take? p = some (b, t)) :
    Cells.takeFirst p s.cells = some (b, t.cells) := by
  unfold take? at h
  split at h
  · cases h
  · rename_i b' cs hcs
    cases h
    exact hcs

theorem take?_find {s t : Slots α n} {p : α → Bool} {b : α} (h : s.take? p = some (b, t)) :
    s.find? p = some b := (Cells.takeFirst_spec (take?_cells h)).1

theorem take?_perm {s t : Slots α n} {p : α → Bool} {b : α} (h : s.take? p = some (b, t)) :
    s.occupants.Perm (b :: t.occupants) := (Cells.takeFirst_spec (take?_cells h)).2

theorem take?_set {s t : Slots α n} {p : α → Bool} {b : α} (h : s.take? p = some (b, t)) :
    ∃ i, s.cells[i]? = some (some b) ∧ t.cells = s.cells.set i none :=
  Cells.takeFirst_set (take?_cells h)

theorem take?_eq_none {s : Slots α n} {p : α → Bool} : s.take? p = none ↔ s.find? p = none := by
  have key : Cells.takeFirst p s.cells = none ↔ _ := Cells.takeFirst_eq_none
  unfold take? find?
  split
  case _ h => exact iff_of_true rfl (key.mp h)
  case _ b cs h =>
    refine iff_of_false (by simp) fun hfind => ?_
    simp [key.mpr hfind] at h

theorem modify_occupants (s : Slots α n) (p : α → Bool) (f : α → α) :
    ((∀ a ∈ s.occupants, ¬ p a) ∧ (s.modify p f).occupants = s.occupants) ∨
      ∃ l a r, s.occupants = l ++ a :: r ∧ (∀ b ∈ l, ¬ p b) ∧ p a ∧
        (s.modify p f).occupants = l ++ f a :: r := Cells.occupants_modifyFirst p f s.cells

@[simp] theorem map_occupants (s : Slots α n) (f : α → α) :
    (s.map f).occupants = s.occupants.map f := Cells.occupants_map f s.cells

theorem find?_modify_of_disjoint {p q : α → Bool} {f : α → α} (hpq : ∀ a, p a → q a = false)
    (hf : ∀ a, p a → q (f a) = false) (s : Slots α n) :
    (s.modify p f).find? q = s.find? q := Cells.findFirst_modifyFirst_of_disjoint hpq hf s.cells

theorem find?_modify_sub {p q : α → Bool} {f : α → α} (hpq : ∀ a, p a → q a)
    (hf : ∀ a, p a → q (f a)) (s : Slots α n) :
    (s.modify p f).find? q = (s.find? q).map fun a => if p a then f a else a :=
  Cells.findFirst_modifyFirst_sub hpq hf s.cells

/-! ## Waiting lines -/

/-- The occupied cells form a prefix that lists `xs` in order. -/
def Packed (s : Slots α n) (xs : List α) : Prop :=
  s.cells = xs.map some ++ List.replicate (n - xs.length) none ∧ xs.length ≤ n

theorem packed_empty : (empty : Slots α n).Packed [] := by simp [Packed, empty]

theorem Packed.occupants {s : Slots α n} {xs : List α} (h : s.Packed xs) : s.occupants = xs := by
  rw [Slots.occupants, h.1]
  simp [Cells.occupants, List.filterMap_map]

private theorem insertFirst_packed (a : α) (xs : List α) (k : Nat) :
    Cells.insertFirst a (xs.map some ++ List.replicate (k + 1) none) =
      some ((xs ++ [a]).map some ++ List.replicate k none) := by
  induction xs with
  | nil => simp [Cells.insertFirst, List.replicate_succ]
  | cons x xs ih => simpa [Cells.insertFirst] using ih

/-- A push fails exactly when every cell is taken; otherwise the value joins at the end. -/
theorem Packed.insert {s : Slots α n} {xs : List α} (h : s.Packed xs) (a : α)
    (room : xs.length < n) : ∃ t, s.insert? a = some t ∧ t.Packed (xs ++ [a]) := by
  obtain ⟨k, hk⟩ : ∃ k, n - xs.length = k + 1 := ⟨n - xs.length - 1, by omega⟩
  have cells := h.1
  rw [hk] at cells
  cases ht : s.insert? a with
  | none =>
    have full := insert?_eq_none.mp ht
    rw [Full, h.occupants] at full
    omega
  | some t =>
    refine ⟨t, rfl, ?_, by simp; omega⟩
    have placed := insert?_cells ht
    rw [cells, insertFirst_packed] at placed
    have hn : n - (xs ++ [a]).length = k := by simp; omega
    rw [hn]
    exact (Option.some.inj placed).symm

theorem Packed.insert_full {s : Slots α n} {xs : List α} (h : s.Packed xs) (a : α)
    (full : ¬ xs.length < n) : s.insert? a = none := by
  rw [insert?_eq_none, Full, h.occupants]
  have := h.2
  omega

theorem extract?_cells {s t : Slots α n} {p : α → Bool} {b : α}
    (h : s.extract? p = some (b, t)) : Cells.extractFirst p s.cells = some (b, t.cells) := by
  unfold extract? at h
  split at h
  · cases h
  · rename_i b' cs hcs
    cases h
    exact hcs

theorem extract?_of_cells {s : Slots α n} {p : α → Bool} {b : α} {cs : List (Option α)}
    (h : Cells.extractFirst p s.cells = some (b, cs)) :
    ∃ t, s.extract? p = some (b, t) ∧ t.cells = cs := by
  unfold extract?
  split
  case _ hn => simp [hn] at h
  case _ b' ds hs =>
    rw [h] at hs
    cases hs
    exact ⟨_, rfl, rfl⟩

theorem extract?_perm {s t : Slots α n} {p : α → Bool} {b : α}
    (h : s.extract? p = some (b, t)) : p b ∧ s.occupants.Perm (b :: t.occupants) :=
  Cells.extractFirst_perm (extract?_cells h)

theorem extract?_eq_none {s : Slots α n} {p : α → Bool} (h : s.extract? p = none) :
    ∀ a ∈ s.occupants, ¬ p a := by
  unfold extract? at h
  split at h
  · rename_i hcs
    exact Cells.extractFirst_eq_none hcs
  · cases h

private theorem extractFirst_packed (p : α → Bool) (xs : List α) (k : Nat) :
    Cells.extractFirst p (xs.map some ++ List.replicate k none) =
      (xs.find? p).map fun a => (a, (xs.eraseP p).map some ++ List.replicate (k + 1) none) := by
  induction xs with
  | nil =>
    induction k with
    | zero => rfl
    | succ k ih =>
      rw [List.map_nil, List.nil_append] at ih
      simp [List.replicate_succ, Cells.extractFirst, ih]
  | cons x xs ih =>
    rw [List.map_cons, List.cons_append, Cells.extractFirst]
    by_cases found : p x
    · rw [if_pos found, List.find?_cons_of_pos found, List.eraseP_cons_of_pos found, List.append_assoc,
        ← List.replicate_succ']
      rfl
    · rw [if_neg found, List.find?_cons_of_neg found, List.eraseP_cons_of_neg found, ih, Option.map_map]
      rfl

/-- The first value that fits leaves the line, and the others close up. -/
theorem Packed.extract {s : Slots α n} {xs : List α} (h : s.Packed xs) {p : α → Bool} {a : α}
    (first : xs.find? p = some a) : ∃ t, s.extract? p = some (a, t) ∧ t.Packed (xs.eraseP p) := by
  have bound := h.2
  have mem := List.mem_of_find?_eq_some first
  have len : (xs.eraseP p).length = xs.length - 1 := List.length_eraseP_of_mem mem (List.find?_some first)
  have pos := List.length_pos_of_mem mem
  have taken := extractFirst_packed p xs (n - xs.length)
  rw [← h.1, first] at taken
  obtain ⟨t, out, cells⟩ := extract?_of_cells taken
  refine ⟨t, out, ?_, by omega⟩
  have room : n - (xs.eraseP p).length = n - xs.length + 1 := by omega
  rw [cells, room]

theorem Packed.extract_none {s : Slots α n} {xs : List α} (h : s.Packed xs) {p : α → Bool}
    (missing : xs.find? p = none) : s.extract? p = none := by
  cases out : s.extract? p with
  | none => rfl
  | some r =>
    have taken := extract?_cells out
    rw [h.1, extractFirst_packed, missing] at taken
    cases taken

theorem Packed.pop_nil {s : Slots α n} (h : s.Packed []) : s.pop? = none := h.extract_none rfl

theorem Packed.pop_cons {s : Slots α n} {x : α} {xs : List α} (h : s.Packed (x :: xs)) :
    ∃ t, s.pop? = some (x, t) ∧ t.Packed xs := h.extract rfl

/-! ### Tables with keys -/

/-- What a cell holds. -/
def at? (s : Slots α n) (i : Nat) : Option α := (s.cells[i]?).join

theorem at?_eq_some {s : Slots α n} {i : Nat} {a : α} :
    s.at? i = some a ↔ s.cells[i]? = some (some a) := by
  simp [at?, Option.join_eq_some_iff]

theorem at?_of_set {s t : Slots α n} {i : Nat} {c : Option α} (h : t.cells = s.cells.set i c)
    (old : i < s.cells.length) (j : Nat) : t.at? j = if j = i then c else s.at? j := by
  unfold at?
  rw [h, List.getElem?_set]
  grind

theorem insert?_at? {s t : Slots α n} {a : α} (h : s.insert? a = some t) :
    ∃ i, s.at? i = none ∧ ∀ j, t.at? j = if j = i then some a else s.at? j := by
  obtain ⟨i, free, cells⟩ := insert?_set h
  have lt : i < s.cells.length := (List.getElem?_eq_some_iff.mp free).1
  exact ⟨i, by simp [at?, free], at?_of_set cells lt⟩

theorem take?_at? {s t : Slots α n} {p : α → Bool} {a : α} (h : s.take? p = some (a, t)) :
    ∃ i, s.at? i = some a ∧ p a ∧ ∀ j, t.at? j = if j = i then none else s.at? j := by
  obtain ⟨i, here, cells⟩ := take?_set h
  have lt : i < s.cells.length := (List.getElem?_eq_some_iff.mp here).1
  have found := take?_find h
  rw [find?_eq] at found
  exact ⟨i, at?_eq_some.mpr here, List.find?_some found, at?_of_set cells lt⟩

theorem modify_found {s : Slots α n} {p : α → Bool} (f : α → α) {a : α} (h : s.find? p = some a) :
    ∃ i, s.at? i = some a ∧ ∀ j, (s.modify p f).at? j = if j = i then some (f a) else s.at? j := by
  obtain ⟨i, here, cells⟩ := Cells.modifyFirst_set f h
  have lt : i < s.cells.length := (List.getElem?_eq_some_iff.mp here).1
  exact ⟨i, at?_eq_some.mpr here, at?_of_set cells lt⟩

theorem modify_at? {s : Slots α n} {p : α → Bool} {f : α → α} {i : Nat} {a : α}
    (h : s.at? i = some a) : ∃ b, (s.modify p f).at? i = some b ∧ (b = a ∨ (p a ∧ b = f a)) := by
  obtain ⟨b, here, eq⟩ := Cells.modifyFirst_getElem? (p := p) (f := f) (at?_eq_some.mp h)
  exact ⟨b, at?_eq_some.mpr here, eq⟩

theorem modify_at?_none {s : Slots α n} {p : α → Bool} {f : α → α} {i : Nat}
    (h : s.at? i = none) : (s.modify p f).at? i = none := by
  have empty : ∀ (cs : List (Option α)) (i : Nat), (cs[i]?).join = none →
      ((Cells.modifyFirst p f cs)[i]?).join = none := by
    intro cs
    induction cs with
    | nil => simp [Cells.modifyFirst]
    | cons c cs ih =>
      intro i none_at
      cases c with
      | none => cases i <;> simp_all [Cells.modifyFirst]
      | some c => by_cases hp : p c <;> cases i <;> simp_all [Cells.modifyFirst]
  exact empty s.cells i h

section Keys

variable {κ : Type} (key : α → κ)

/-- No two cells hold values with the same key. -/
def Distinct (s : Slots α n) : Prop :=
  ∀ i j a b, s.at? i = some a → s.at? j = some b → key a = key b → i = j

/-- Some value of the table has this key. -/
def Uses (s : Slots α n) (k : κ) : Prop := ∃ i a, s.at? i = some a ∧ key a = k

variable {key} {s t : Slots α n} {a : α} {i : Nat}

theorem distinct_insert_iff (h : s.Distinct key) (put : s.insert? a = some t) :
    t.Distinct key ↔ ¬ s.Uses key (key a) := by
  obtain ⟨i, free, cells⟩ := insert?_at? put
  constructor
  · rintro distinct ⟨j, b, here, same⟩
    have ne : j ≠ i := by
      rintro rfl
      rw [free] at here
      cases here
    exact ne (distinct j i b a (by rw [cells, if_neg ne, here]) (by rw [cells, if_pos rfl]) same)
  · intro fresh x y u v hx hy same
    rw [cells] at hx hy
    split_ifs at hx hy with x_eq y_eq
    · exact x_eq.trans y_eq.symm
    · cases hx
      exact absurd ⟨y, v, hy, same.symm⟩ fresh
    · cases hy
      exact absurd ⟨x, u, hx, same⟩ fresh
    · exact h x y u v hx hy same

theorem Distinct.take {p : α → Bool} (h : s.Distinct key) (taken : s.take? p = some (a, t)) :
    t.Distinct key := by
  obtain ⟨i, _, _, cells⟩ := take?_at? taken
  intro x y u v hx hy same
  rw [cells] at hx hy
  split_ifs at hx hy
  exact h x y u v hx hy same

/-- An update that keeps the keys. -/
theorem Distinct.modify {p : α → Bool} {f : α → α} (h : s.Distinct key)
    (keeps : ∀ a, key (f a) = key a) : (s.modify p f).Distinct key := by
  have old : ∀ i b, (s.modify p f).at? i = some b → ∃ a, s.at? i = some a ∧ key b = key a := by
    intro i b here
    cases before : s.at? i with
    | none =>
      rw [modify_at?_none before] at here
      cases here
    | some a =>
      obtain ⟨b', here', eq⟩ := modify_at? (p := p) (f := f) before
      rw [here] at here'
      cases here'
      exact ⟨a, rfl, by rcases eq with rfl | ⟨_, rfl⟩ <;> simp [keeps]⟩
  intro x y u v hx hy same
  obtain ⟨u₀, hx₀, hu⟩ := old x u hx
  obtain ⟨v₀, hy₀, hv⟩ := old y v hy
  exact h x y u₀ v₀ hx₀ hy₀ (by rw [← hu, ← hv, same])

theorem not_uses_of_empty (h : s.occupants = []) (k : κ) : ¬ s.Uses key k := by
  rintro ⟨i, a, here, _⟩
  have mem : a ∈ s.occupants := Cells.mem_occupants.mpr (List.mem_of_getElem? (at?_eq_some.mp here))
  rw [h] at mem
  cases mem

variable [DecidableEq κ]

/-- A search by key finds the cell that holds the key. -/
theorem Distinct.onlyAt (h : s.Distinct key) (here : s.at? i = some a) :
    Cells.OnlyAt (fun b => key b == key a) s.cells i a where
  here := at?_eq_some.mp here
  holds := by simp
  unique j b at_j eq := h j i b a (at?_eq_some.mpr at_j) here (by simpa using eq)

theorem Distinct.find (h : s.Distinct key) (here : s.at? i = some a) :
    s.find? (fun b => key b == key a) = some a := (h.onlyAt here).findFirst

theorem Distinct.take_eq (h : s.Distinct key) (here : s.at? i = some a) :
    ∃ t, s.take? (fun b => key b == key a) = some (a, t) ∧ t.cells = s.cells.set i none := by
  have taken := (h.onlyAt here).takeFirst
  unfold take?
  split
  · rename_i none_taken
    rw [taken] at none_taken
    cases none_taken
  · rename_i b cs some_taken
    rw [taken] at some_taken
    cases some_taken
    exact ⟨_, rfl, rfl⟩

theorem Distinct.modify_cells (h : s.Distinct key) (here : s.at? i = some a) (f : α → α) :
    (s.modify (fun b => key b == key a) f).cells = s.cells.set i (some (f a)) :=
  (h.onlyAt here).modifyFirst

end Keys

end Slots

end CapsuleOS.Lib
