import Mathlib.Tactic
import Mathlib.Data.List.DropRight

/-!
# UTF-8 text

A text is a list of characters, and its bytes are their encoding. A slice by byte positions exists where both
are between characters. A character below 128 is one byte, and the bytes of all others are from 128 on. So a
scan of the bytes for such characters finds positions between characters (`Marks`), and splits the bytes just
as the text.
-/
namespace CapsuleOS.Lib

abbrev Text := List Char

namespace Text

variable {t u v w : Text} {c : Char}

def bytes (t : Text) : List UInt8 := t.flatMap String.utf8EncodeChar

/-- The texts in front of and behind a byte position. -/
def cut : Text → Nat → Option (Text × Text)
  | [], n => if n = 0 then some ([], []) else none
  | c :: t, n =>
    if n = 0 then some ([], c :: t)
    else if c.utf8Size ≤ n then (cut t (n - c.utf8Size)).map fun (u, v) => (c :: u, v)
    else none

def sliceFrom (t : Text) (start : Nat) : Option Text := (t.cut start).map (·.2)

def slice (t : Text) (start stop : Nat) : Option Text :=
  if start ≤ stop then (t.sliceFrom start).bind fun rest => (rest.cut (stop - start)).map (·.1) else none

/-- The byte position of the first `c`. -/
def find (c : Char) : Text → Option Nat
  | [] => none
  | d :: t => if d = c then some 0 else (find c t).map (d.utf8Size + ·)

@[simp] theorem bytes_nil : bytes [] = [] := rfl

@[simp] theorem bytes_cons : bytes (c :: t) = String.utf8EncodeChar c ++ bytes t := List.flatMap_cons

@[simp] theorem bytes_append : bytes (u ++ v) = bytes u ++ bytes v := List.flatMap_append

theorem bytes_eq_nil : bytes t = [] ↔ t = [] := by
  cases t <;> simp

theorem cut_append : (u ++ v).cut (bytes u).length = some (u, v) := by
  induction u with
  | nil => cases v <;> simp [cut]
  | cons c u ih =>
    have pos := c.utf8Size_pos
    simp only [List.cons_append, cut, bytes_cons, List.length_append, String.length_utf8EncodeChar]
    rw [if_neg (by omega), if_pos (by omega), Nat.add_sub_cancel_left, ih]
    rfl

theorem sliceFrom_append : (u ++ v).sliceFrom (bytes u).length = some v := by
  rw [sliceFrom, cut_append]
  rfl

theorem slice_append : (u ++ v ++ w).slice (bytes u).length (bytes (u ++ v)).length = some v := by
  have le : (bytes u).length ≤ (bytes (u ++ v)).length := by simp
  have rest : (bytes (u ++ v)).length - (bytes u).length = (bytes v).length := by simp
  rw [slice, if_pos le, List.append_assoc, sliceFrom_append, Option.bind_some, rest, cut_append]
  rfl

/-- A character that is found is the first of its kind. -/
theorem find_some {n : Nat} (found : t.find c = some n) : ∃ u v, t = u ++ c :: v ∧ c ∉ u ∧ n = (bytes u).length := by
  induction t generalizing n with
  | nil => cases found
  | cons d t ih =>
    rw [find] at found
    split_ifs at found with here
    · cases found
      exact ⟨[], t, by rw [here, List.nil_append], List.not_mem_nil, rfl⟩
    · obtain ⟨m, later, rfl⟩ := Option.map_eq_some_iff.mp found
      obtain ⟨u, v, rfl, first, rfl⟩ := ih later
      have other : c ∉ d :: u := by
        rw [List.mem_cons, not_or]
        exact ⟨fun eq => here eq.symm, first⟩
      exact ⟨d :: u, v, rfl, other, by rw [bytes_cons, List.length_append, String.length_utf8EncodeChar]⟩

/-- The bytes of a part of a text are bytes of the text. -/
theorem bytes_subset (part : u ⊆ t) : bytes u ⊆ bytes t := by
  intro b mem
  obtain ⟨c, mem_u, enc⟩ := List.mem_flatMap.mp mem
  exact List.mem_flatMap.mpr ⟨c, part mem_u, enc⟩

/-! ## Marks -/

/-- `p` holds of the byte of each character that is a mark, and of no byte of the others. -/
structure Marks (p : UInt8 → Bool) (q : Char → Bool) : Prop where
  hit : ∀ c, q c = true → ∃ b, String.utf8EncodeChar c = [b] ∧ p b = true
  miss : ∀ c, q c = false → ∀ b ∈ String.utf8EncodeChar c, p b = false

theorem encode_low (low : c.toNat < 128) : String.utf8EncodeChar c = [UInt8.ofNat c.toNat] := by
  have le : c.val.toNat ≤ 0x7f := Nat.le_of_lt_succ low
  simp only [String.utf8EncodeChar, if_pos le]
  rfl

theorem encode_high (high : 128 ≤ c.toNat) : ∀ b ∈ String.utf8EncodeChar c, 128 ≤ b.toNat := by
  have gt : ¬c.val.toNat ≤ 0x7f := not_le.mpr high
  unfold String.utf8EncodeChar
  dsimp only
  rw [if_neg gt]
  split_ifs <;> intro b mem <;>
    simp only [List.mem_cons, List.not_mem_nil, or_false] at mem
  · rcases mem with rfl | rfl <;> simp only [UInt8.toNat_ofNat'] <;> omega
  · rcases mem with rfl | rfl | rfl <;> simp only [UInt8.toNat_ofNat'] <;> omega
  · rcases mem with rfl | rfl | rfl | rfl <;> simp only [UInt8.toNat_ofNat'] <;> omega

/-- Characters below 128 are marks. -/
theorem marks_of_low {cs : List Char} (all_low : cs.all (·.toNat < 128) = true) :
    Marks (fun b => decide (b ∈ cs.map fun c => UInt8.ofNat c.toNat)) (fun c => decide (c ∈ cs)) := by
  have low : ∀ c ∈ cs, c.toNat < 128 := fun c mem => of_decide_eq_true (List.all_eq_true.mp all_low c mem)
  refine ⟨fun c mark => ?_, fun c other b mem => ?_⟩
  · have mem := of_decide_eq_true mark
    exact ⟨_, encode_low (low c mem), decide_eq_true (List.mem_map_of_mem mem)⟩
  · refine decide_eq_false fun marked => of_decide_eq_false other ?_
    obtain ⟨d, mem_d, same⟩ := List.mem_map.mp marked
    have low_d := low d mem_d
    subst same
    by_cases low_c : c.toNat < 128
    · rw [encode_low low_c, List.mem_singleton] at mem
      have codes := congrArg UInt8.toNat mem
      rw [UInt8.toNat_ofNat', UInt8.toNat_ofNat', Nat.mod_eq_of_lt (by omega), Nat.mod_eq_of_lt (by omega)] at codes
      rwa [← Char.toNat_inj.mp codes]
    · have high := encode_high (not_lt.mp low_c) _ mem
      rw [UInt8.toNat_ofNat', Nat.mod_eq_of_lt (by omega)] at high
      omega

section Split

variable {α : Type} {p : α → Bool} {x : α} {xs : List α}

theorem modifyHead_nil (parts : List (List α)) : parts.modifyHead ([] ++ ·) = parts := by
  cases parts <;> rfl

theorem modifyHead_append (xs ys : List α) (parts : List (List α)) :
    (parts.modifyHead (ys ++ ·)).modifyHead (xs ++ ·) = parts.modifyHead (xs ++ ys ++ ·) := by
  cases parts <;> simp

theorem splitOnP_mark (mark : p x = true) : (x :: xs).splitOnP p = [] :: xs.splitOnP p := by
  rw [List.splitOnP_cons_eq_if_modifyHead, if_pos mark]

theorem splitOnP_skip (other : p x = false) : (x :: xs).splitOnP p = (xs.splitOnP p).modifyHead ([x] ++ ·) := by
  rw [List.splitOnP_cons_eq_if_modifyHead, other]
  rfl

/-- What has no marks goes to the first part. -/
theorem splitOnP_append (ys : List α) (unmarked : ∀ x ∈ xs, p x = false) :
    (xs ++ ys).splitOnP p = (ys.splitOnP p).modifyHead (xs ++ ·) := by
  induction xs with
  | nil => exact (modifyHead_nil _).symm
  | cons x xs ih =>
    obtain ⟨here, later⟩ := List.forall_mem_cons.mp unmarked
    rw [List.cons_append, splitOnP_skip here, ih later, modifyHead_append]
    rfl

/-- The parts are made of what is split. -/
theorem subset_of_mem_splitOnP {part : List α} (mem : part ∈ xs.splitOnP p) : part ⊆ xs := by
  induction xs generalizing part with
  | nil =>
    rw [List.splitOnP_nil, List.mem_singleton] at mem
    exact mem ▸ List.Subset.refl _
  | cons x xs ih =>
    cases mark : p x with
    | true =>
      rw [splitOnP_mark mark, List.mem_cons] at mem
      rcases mem with rfl | later
      · exact List.nil_subset _
      · exact List.subset_cons_of_subset x (ih later)
    | false =>
      obtain ⟨first, others, parts⟩ := List.exists_cons_of_ne_nil (List.splitOnP_ne_nil p xs)
      rw [splitOnP_skip mark, parts, List.modifyHead_cons, List.mem_cons] at mem
      rw [parts] at ih
      rcases mem with rfl | later
      · exact List.cons_subset_cons x (ih List.mem_cons_self)
      · exact List.subset_cons_of_subset x (ih (List.mem_cons_of_mem first later))

end Split

/-- Splitting the bytes at the marks is splitting the text. -/
theorem Marks.bytes_splitOnP {p : UInt8 → Bool} {q : Char → Bool} (h : Marks p q) (t : Text) :
    (bytes t).splitOnP p = (t.splitOnP q).map bytes := by
  induction t with
  | nil => rfl
  | cons c t ih =>
    rw [bytes_cons]
    cases mark : q c with
    | true =>
      obtain ⟨b, enc, hit⟩ := h.hit c mark
      rw [enc, List.singleton_append, splitOnP_mark hit, splitOnP_mark mark, ih]
      rfl
    | false =>
      rw [splitOnP_append _ (h.miss c mark), splitOnP_skip mark, ih]
      cases t.splitOnP q <;> simp

theorem Marks.unmarked_parts {p : UInt8 → Bool} {q : Char → Bool} (h : Marks p q) {t part : Text}
    (mem : part ∈ t.splitOnP q) : ∀ b ∈ bytes part, p b = false := by
  induction t generalizing part with
  | nil =>
    rw [List.splitOnP_nil, List.mem_singleton] at mem
    simp [mem]
  | cons c t ih =>
    cases mark : q c with
    | true =>
      rw [splitOnP_mark mark, List.mem_cons] at mem
      rcases mem with rfl | later
      · simp
      · exact ih later
    | false =>
      rw [splitOnP_skip mark] at mem
      cases parts : t.splitOnP q with
      | nil => exact absurd parts (List.splitOnP_ne_nil q t)
      | cons first parts' =>
        rw [parts] at mem
        rcases List.mem_cons.mp mem with rfl | later
        · intro b mem'
          rcases List.mem_append.mp (bytes_append ▸ mem') with here | rest
          · exact h.miss c mark b (by simpa using here)
          · exact ih (by simp [parts]) b rest
        · exact ih (by simp [parts, later])

/-! ## Trimming -/

section Trim

variable {p q : Char → Bool}

def trim (p : Char → Bool) (t : Text) : Text := (t.dropWhile p).rdropWhile p

theorem trim_append_left (blank : ∀ c ∈ u, p c = true) : trim p (u ++ t) = trim p t := by
  rw [trim, List.dropWhile_append_of_pos blank, trim]

theorem rdropWhile_append (blank : ∀ c ∈ u, p c = true) : (t ++ u).rdropWhile p = t.rdropWhile p := by
  rw [List.rdropWhile, List.reverse_append, List.dropWhile_append_of_pos (by simpa using blank), List.rdropWhile]

theorem trim_append_right (blank : ∀ c ∈ u, p c = true) : trim p (t ++ u) = trim p t := by
  rw [trim, trim, List.dropWhile_append]
  cases rest : t.dropWhile p with
  | nil => simp [List.dropWhile_eq_nil_iff.mpr blank]
  | cons c t' =>
    rw [List.isEmpty_cons, if_neg (by simp), rdropWhile_append blank]

/-- The text, with what is taken off at both ends. -/
theorem trim_split (p : Char → Bool) (t : Text) : ∃ u w, t = u ++ trim p t ++ w ∧ (∀ c ∈ u, p c = true) ∧
    ∀ c ∈ w, p c = true := by
  refine ⟨t.takeWhile p, (t.dropWhile p).rtakeWhile p, ?_, fun c => List.mem_takeWhile_imp, fun c mem => ?_⟩
  · rw [trim, List.append_assoc, List.rdropWhile_append_rtakeWhile, List.takeWhile_append_dropWhile]
  · exact List.mem_rtakeWhile_imp mem

theorem trim_subset (p : Char → Bool) (t : Text) : trim p t ⊆ t := by
  obtain ⟨u, w, split, -, -⟩ := trim_split p t
  intro c mem
  rw [split]
  exact List.mem_append_left w (List.mem_append_right u mem)

/-- A trimmed text begins with a character that stays. -/
theorem trim_head (head : trim p t = c :: u) : p c = false := by
  obtain ⟨rest, all⟩ : c :: u <+: t.dropWhile p := head ▸ List.rdropWhile_prefix p _
  have first := List.head?_dropWhile_not p t
  rw [← all] at first
  exact first

/-- What has no marks goes to the last part. -/
theorem splitOnP_append_right (t : Text) (unmarked : ∀ c ∈ w, q c = false) : ∃ parts last,
    t.splitOnP q = parts ++ [last] ∧ (t ++ w).splitOnP q = parts ++ [last ++ w] := by
  induction t with
  | nil => exact ⟨[], [], rfl, List.splitOnP_eq_singleton unmarked⟩
  | cons c t ih =>
    obtain ⟨parts, last, short, long⟩ := ih
    rw [List.cons_append]
    cases mark : q c with
    | true =>
      rw [splitOnP_mark mark, splitOnP_mark mark, short, long]
      exact ⟨[] :: parts, last, rfl, rfl⟩
    | false =>
      rw [splitOnP_skip mark, splitOnP_skip mark, short, long]
      cases parts with
      | nil => exact ⟨[], c :: last, rfl, rfl⟩
      | cons first parts => exact ⟨(c :: first) :: parts, last, rfl, rfl⟩

/-- The trimmed parts are those of the trimmed text, if the marks are not trimmed. -/
theorem trim_parts (kept : ∀ c, p c = true → q c = false) (t : Text) :
    ((trim p t).splitOnP q).map (trim p) = (t.splitOnP q).map (trim p) := by
  obtain ⟨u, w, split, front, back⟩ := trim_split p t
  generalize trim p t = x at split ⊢
  subst split
  have unmarked : ∀ c ∈ w, q c = false := fun c mem => kept c (back c mem)
  obtain ⟨parts, last, short, long⟩ := splitOnP_append_right (u ++ x) unmarked
  have right : ((u ++ x ++ w).splitOnP q).map (trim p) = ((u ++ x).splitOnP q).map (trim p) := by
    rw [long, short, List.map_append, List.map_append, List.map_singleton, List.map_singleton,
      trim_append_right back]
  have left : (u ++ x).splitOnP q = (x.splitOnP q).modifyHead (u ++ ·) :=
    splitOnP_append _ fun c mem => kept c (front c mem)
  rw [right, left]
  cases x.splitOnP q <;> simp [trim_append_left front]

end Trim

end Text

end CapsuleOS.Lib
