import Mathlib.Tactic

/-!
# Ring buffers

An array of `n` cells that is used in a circle, with the index of the first entry and the index
behind the last one. One cell stays empty, so that equal indices mean an empty ring. `Holds` describes
the ring by the list of its entries; cells that hold no entry are empty. In a ring that `Spans` its
entries such cells may hold anything.
-/
namespace CapsuleOS.Lib.Ring

variable {α : Type} {n : Nat}

/-- The index `i` cells further on. -/
def ahead (h : Fin n) (i : Nat) : Fin n := ⟨(h.val + i) % n, Nat.mod_lt _ h.pos⟩

def next (h : Fin n) : Fin n := ahead h 1

/-- The entries from `head` up to `tail` are `xs`. -/
structure Holds (cells : Fin n → Option α) (head tail : Fin n) (xs : List α) : Prop where
  room : xs.length < n
  tail_eq : tail = ahead head xs.length
  entry : ∀ i < n, cells (ahead head i) = xs[i]?

@[simp] theorem ahead_zero (h : Fin n) : ahead h 0 = h := by
  apply Fin.ext
  simp [ahead, Nat.mod_eq_of_lt h.isLt]

theorem ahead_ahead (h : Fin n) (i j : Nat) : ahead (ahead h i) j = ahead h (i + j) := by
  apply Fin.ext
  simp [ahead, Nat.add_assoc]

theorem ahead_injective {h : Fin n} {i j : Nat} (hi : i < n) (hj : j < n)
    (eq : ahead h i = ahead h j) : i = j := by
  have vals : (h.val + i) % n = (h.val + j) % n := congrArg Fin.val eq
  have mods : i % n = j % n := Nat.ModEq.add_left_cancel' h.val vals
  rwa [Nat.mod_eq_of_lt hi, Nat.mod_eq_of_lt hj] at mods

theorem ahead_size (h : Fin n) : ahead h n = h := by
  apply Fin.ext
  simp [ahead, Nat.mod_eq_of_lt h.isLt]

/-- Every cell is reached from every other. -/
theorem exists_ahead (h j : Fin n) : ∃ i < n, ahead h i = j := by
  refine ⟨(j.val + (n - h.val)) % n, Nat.mod_lt _ h.pos, ?_⟩
  apply Fin.ext
  have hlt := h.isLt
  simp only [ahead, Nat.add_mod_mod]
  rw [show h.val + (j.val + (n - h.val)) = j.val + n by omega, Nat.add_mod_right,
    Nat.mod_eq_of_lt j.isLt]

/-! ## Indices -/

/-- There are `k` entries from `head` up to `tail`. -/
structure Extent (head tail : Fin n) (k : Nat) : Prop where
  room : k < n
  tail_eq : tail = ahead head k

section Extent

variable {head tail : Fin n} {k : Nat}

theorem extent_zero (h : Fin n) : Extent h h 0 := ⟨h.pos, (ahead_zero h).symm⟩

theorem Extent.head_eq_tail (h : Extent head tail k) : head = tail ↔ k = 0 := by
  constructor
  · intro eq
    rw [h.tail_eq] at eq
    have same : ahead head 0 = ahead head k := by rw [ahead_zero]; exact eq
    exact (ahead_injective head.pos h.room same).symm
  · rintro rfl
    simpa using h.tail_eq.symm

/-- A cell is free when the tail does not run into the head. -/
theorem Extent.push_room (h : Extent head tail k) : next tail ≠ head ↔ k + 1 < n := by
  have room := h.room
  rw [next, h.tail_eq, ahead_ahead]
  constructor
  · intro ne
    by_contra full
    have eq : k + 1 = n := by omega
    rw [eq, ahead_size] at ne
    exact ne rfl
  · intro fits eq
    have := ahead_injective fits head.pos (eq.trans (ahead_zero head).symm)
    omega

theorem Extent.push (h : Extent head tail k) (free : next tail ≠ head) :
    Extent head (next tail) (k + 1) where
  room := h.push_room.mp free
  tail_eq := by rw [next, h.tail_eq, ahead_ahead]

theorem Extent.pop (h : Extent head tail (k + 1)) : Extent (next head) tail k where
  room := by
    have := h.room
    omega
  tail_eq := by rw [h.tail_eq, next, ahead_ahead, Nat.add_comm]

end Extent

/-! ## Cells that are emptied -/

variable {cells : Fin n → Option α} {head tail : Fin n} {xs : List α} {x : α}

theorem Holds.extent (h : Holds cells head tail xs) : Extent head tail xs.length := ⟨h.room, h.tail_eq⟩

theorem holds_empty (h : Fin n) : Holds (fun _ => (none : Option α)) h h [] where
  room := h.pos
  tail_eq := (ahead_zero h).symm
  entry _ _ := by simp

theorem Holds.head_eq_tail (h : Holds cells head tail xs) : head = tail ↔ xs = [] := by
  rw [h.extent.head_eq_tail, List.length_eq_zero_iff]

theorem Holds.first (h : Holds cells head tail xs) : cells head = xs.head? := by
  have front := h.entry 0 head.pos
  rw [ahead_zero] at front
  rw [front, List.head?_eq_getElem?]

/-- Moving the head over the first entry. -/
theorem Holds.pop (h : Holds cells head tail (x :: xs)) :
    Holds (Function.update cells head none) (next head) tail xs where
  room := h.extent.pop.room
  tail_eq := h.extent.pop.tail_eq
  entry i hi := by
    rw [next, ahead_ahead, Nat.add_comm]
    by_cases last : i + 1 = n
    · have len := h.room
      rw [last, ahead_size, Function.update_self, List.getElem?_eq_none]
      simp at len
      omega
    · have ne : ahead head (i + 1) ≠ head := by
        intro eq
        have : i + 1 = 0 := ahead_injective (by omega) head.pos (eq.trans (ahead_zero head).symm)
        omega
      rw [Function.update_of_ne ne, h.entry (i + 1) (by omega), List.getElem?_cons_succ]

theorem Holds.push_room (h : Holds cells head tail xs) :
    next tail ≠ head ↔ xs.length + 1 < n := h.extent.push_room

theorem Holds.push (h : Holds cells head tail xs) (free : next tail ≠ head) :
    Holds (Function.update cells tail (some x)) head (next tail) (xs ++ [x]) where
  room := by simpa using (h.extent.push free).room
  tail_eq := by simpa using (h.extent.push free).tail_eq
  entry i hi := by
    by_cases here : i = xs.length
    · subst here
      rw [← h.tail_eq, Function.update_self, List.getElem?_concat_length]
    · have ne : ahead head i ≠ tail := by
        rw [h.tail_eq]
        exact fun eq => here (ahead_injective hi h.room eq)
      rw [Function.update_of_ne ne, h.entry i hi, List.getElem?_append]
      split_ifs with inside
      · rfl
      · rw [List.getElem?_eq_none (by omega), List.getElem?_eq_none (by simp; omega)]

/-! ## Cells that keep what they held -/

/-- The entries from `head` up to `tail` are `xs`; the other cells may hold anything. -/
structure Spans (cells : Fin n → α) (head tail : Fin n) (xs : List α) : Prop where
  extent : Extent head tail xs.length
  entry : ∀ i x, xs[i]? = some x → cells (ahead head i) = x

section Spans

variable {cells : Fin n → α}

theorem spans_empty (cells : Fin n → α) (h : Fin n) : Spans cells h h [] := ⟨extent_zero h, by simp⟩

theorem Spans.head_eq_tail (h : Spans cells head tail xs) : head = tail ↔ xs = [] := by
  rw [h.extent.head_eq_tail, List.length_eq_zero_iff]

theorem Spans.first (h : Spans cells head tail (x :: xs)) : cells head = x := by
  have front := h.entry 0 x rfl
  rwa [ahead_zero] at front

theorem Spans.pop (h : Spans cells head tail (x :: xs)) : Spans cells (next head) tail xs where
  extent := h.extent.pop
  entry i y hy := by
    rw [next, ahead_ahead, Nat.add_comm]
    exact h.entry (i + 1) y hy

theorem Spans.push (h : Spans cells head tail xs) (free : next tail ≠ head) (x : α) :
    Spans (Function.update cells tail x) head (next tail) (xs ++ [x]) where
  extent := by simpa using h.extent.push free
  entry i y hy := by
    rcases Nat.lt_or_ge i xs.length with lt | ge
    · have ne : ahead head i ≠ tail := by
        rw [h.extent.tail_eq]
        intro eq
        have same := ahead_injective (lt.trans h.extent.room) h.extent.room eq
        omega
      rw [Function.update_of_ne ne]
      exact h.entry i y (by rwa [List.getElem?_append_left lt] at hy)
    · obtain ⟨rfl, rfl⟩ : i = xs.length ∧ x = y := by
        rw [List.getElem?_append_right ge] at hy
        have lt := (List.getElem?_eq_some_iff.mp hy).1
        have last : i - xs.length = 0 := by simpa using lt
        rw [last] at hy
        exact ⟨by omega, by simpa using hy⟩
      rw [← h.extent.tail_eq, Function.update_self]

end Spans

end CapsuleOS.Lib.Ring
