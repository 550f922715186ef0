import Mathlib.Tactic

/-!
# Line editing

A line grows at its end and loses characters there. A display has the cells before a cursor and those from
the cursor on; a glyph overwrites the cell at the cursor, and the cursor can go back. If a key that erases
is echoed by going back, a blank and going back again, the cells before the cursor are always the line
(`Mirrors.echo`).
-/
namespace CapsuleOS.Lib

variable {α : Type}

inductive Key (α : Type) where
  | insert (a : α)
  | erase
  deriving DecidableEq

def Key.apply : Key α → List α → List α
  | .insert a, line => line ++ [a]
  | .erase, line => line.dropLast

/-- The line after some keys. -/
def edited (line : List α) (keys : List (Key α)) : List α := keys.foldl (fun line key => key.apply line) line

@[simp] theorem edited_nil (line : List α) : edited line [] = line := rfl

@[simp] theorem edited_cons (line : List α) (key : Key α) (keys : List (Key α)) :
    edited line (key :: keys) = edited (key.apply line) keys := rfl

theorem edited_append (line : List α) (keys keys' : List (Key α)) :
    edited line (keys ++ keys') = edited (edited line keys) keys' := List.foldl_append

theorem Key.length_apply_le (key : Key α) (line : List α) : (key.apply line).length ≤ line.length + 1 := by
  cases key with
  | insert a => simp [apply]
  | erase =>
    simp only [apply, List.length_dropLast]
    omega

theorem edited_length_le (line : List α) (keys : List (Key α)) :
    (edited line keys).length ≤ line.length + keys.length := by
  induction keys generalizing line with
  | nil => simp
  | cons key keys ih =>
    have first := key.length_apply_le line
    have later := ih (key.apply line)
    rw [edited_cons, List.length_cons]
    omega

/-! ## Display -/

inductive Code (α : Type) where
  | glyph (a : α)
  | back

structure Display (α : Type) where
  before : List α
  behind : List α

namespace Display

def put (d : Display α) : Code α → Display α
  | .glyph a => ⟨d.before ++ [a], d.behind.tail⟩
  | .back => match d.before.getLast? with
    | none => d
    | some a => ⟨d.before.dropLast, a :: d.behind⟩

def shows (d : Display α) (codes : List (Code α)) : Display α := codes.foldl put d

theorem shows_append (d : Display α) (codes codes' : List (Code α)) :
    d.shows (codes ++ codes') = (d.shows codes).shows codes' := List.foldl_append

end Display

/-- What is sent to the display for a key. -/
def Key.echo (blank : α) (line : List α) : Key α → List (Code α)
  | .insert a => [.glyph a]
  | .erase => match line with
    | [] => []
    | _ :: _ => [.back, .glyph blank, .back]

def echoed (blank : α) : List α → List (Key α) → List (Code α)
  | _, [] => []
  | line, key :: keys => key.echo blank line ++ echoed blank (key.apply line) keys

/-- The cursor is behind the line, and there is nothing but blanks from it on. -/
structure Mirrors (blank : α) (base line : List α) (d : Display α) : Prop where
  before : d.before = base ++ line
  behind : ∀ a ∈ d.behind, a = blank

variable {blank : α} {base line : List α} {d : Display α}

theorem Mirrors.key (h : Mirrors blank base line d) (key : Key α) :
    Mirrors blank base (key.apply line) (d.shows (key.echo blank line)) := by
  obtain ⟨before, behind⟩ := d
  obtain ⟨rfl, blanks⟩ := h
  cases key with
  | insert a =>
    refine ⟨by simp [Display.shows, Key.echo, Display.put, Key.apply], fun b mem => ?_⟩
    exact blanks b (List.mem_of_mem_tail mem)
  | erase =>
    rcases List.eq_nil_or_concat line with rfl | ⟨front, last, rfl⟩
    · exact ⟨rfl, blanks⟩
    · have some_key : Key.echo blank (front ++ [last]) .erase = [.back, .glyph blank, .back] := by
        cases front <;> rfl
      rw [List.concat_eq_append, some_key]
      refine ⟨?_, fun b mem => ?_⟩
      · simp [Display.shows, Display.put, Key.apply, ← List.append_assoc]
      · simp only [Display.shows, Display.put, List.foldl_cons, List.foldl_nil, ← List.append_assoc,
          List.getLast?_concat, List.dropLast_concat, List.tail_cons, List.mem_cons] at mem
        exact mem.elim id (blanks b)

/-- The display goes with the line over any keys. -/
theorem Mirrors.echo (h : Mirrors blank base line d) (keys : List (Key α)) :
    Mirrors blank base (edited line keys) (d.shows (echoed blank line keys)) := by
  induction keys generalizing line d with
  | nil => exact h
  | cons key keys ih =>
    rw [edited_cons, echoed, Display.shows_append]
    exact ih (h.key key)

end CapsuleOS.Lib
