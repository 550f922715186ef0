import CapsuleOS.Lib.Loop
import CapsuleOS.Ohlink.Integrity

/-!
# Which files the parser survives

What the parser reads of the header and of the table of entries is always in range. The payload of an entry
is not: in the kernel the sum of offset and size wraps, and when the wrapped sum is within the file the slice
ends before it starts. A file is survived exactly if no entry of it is like that (`survives_iff`).
-/
namespace CapsuleOS.Ohlink

open Lib

structure EntryIterator where
  parser : Parser
  current : BitVec 16
  count : BitVec 16

def Parser.entries (p : Parser) : EntryIterator := ⟨p, 0, p.header.headerCount⟩

namespace EntryIterator

/-- An error ends the iteration. -/
def next (it : EntryIterator) : Except Stop (Option Entry × EntryIterator) :=
  if it.current < it.count then
    match it.parser.getEntry it.current with
    | .ok e => .ok (some e, { it with current := it.current + 1 })
    | .error (.format _) => .ok (none, it)
    | .error .panic => .error .panic
  else .ok (none, it)

/-- A round of a `for` loop that collects the entries. -/
def turn : EntryIterator × List Entry → Round (EntryIterator × List Entry) (Except Stop (List Entry))
  | (it, seen) =>
    match it.next with
    | .ok (some e, it) => .again (it, seen ++ [e])
    | .ok (none, _) => .leave (.ok seen)
    | .error stop => .leave (.error stop)

end EntryIterator

/-! ## The payload -/

namespace Parser

variable {p : Parser} {e : Entry}

/-- The slice of a payload is out of range exactly if the sum wraps into the file. -/
theorem getSegmentData_panics : p.getSegmentData .release e = .error .panic ↔
    2 ^ 64 ≤ e.fileOffset.toNat + e.fileSize.toNat ∧
      e.fileOffset.toNat + e.fileSize.toNat - 2 ^ 64 ≤ p.data.length := by
  by_cases small : e.fileOffset.toNat + e.fileSize.toNat < 2 ^ 64
  · rw [getSegmentData_small small]
    refine iff_of_false ?_ fun wraps => absurd wraps.1 (Nat.not_le.mpr small)
    split_ifs <;> simp
  · have wraps := Nat.not_lt.mp small
    rw [getSegmentData_wrapped wraps]
    by_cases behind : e.fileOffset.toNat + e.fileSize.toNat - 2 ^ 64 > p.data.length
    · rw [if_pos behind]
      exact iff_of_false (by simp) fun inside => absurd inside.2 (Nat.not_le.mpr behind)
    · rw [if_neg behind]
      exact iff_of_true rfl ⟨wraps, Nat.not_lt.mp behind⟩

end Parser

/-! ## Iteration -/

namespace EntryIterator

variable {p : Parser} {it : EntryIterator}

/-- The entries come from the parser, and the position is within the table. -/
structure Collects (p : Parser) (it : EntryIterator) (seen : List Entry) : Prop where
  parser : it.parser = p
  count : it.count = p.header.headerCount
  position : it.current ≤ it.count
  entries : ∀ e ∈ seen, ∃ index, p.getEntry index = .ok e

/-- The position does not wrap. -/
theorem succ_toNat {current count : BitVec 16} (more : current < count) :
    (current + 1).toNat = current.toNat + 1 := by
  have room := BitVec.lt_def.mp more
  have bound := count.isLt
  rw [BitVec.toNat_add]
  exact Nat.mod_eq_of_lt (by change current.toNat + 1 < 2 ^ 16; omega)

/-- What a round does: it goes on with one more entry, or it ends the loop without a panic. -/
theorem turn_cases {seen : List Entry} (h : Collects p it seen) :
    (∃ e, turn (it, seen) = .again ({ it with current := it.current + 1 }, seen ++ [e]) ∧
      it.current < it.count ∧ Collects p { it with current := it.current + 1 } (seen ++ [e])) ∨
    turn (it, seen) = .leave (.ok seen) := by
  by_cases more : it.current < it.count
  · cases got : it.parser.getEntry it.current with
    | ok e =>
      have goes : turn (it, seen) = .again ({ it with current := it.current + 1 }, seen ++ [e]) := by
        simp only [turn, next, more, if_true, got]
      refine .inl ⟨e, goes, more, h.parser, h.count, ?_, fun e' mem => ?_⟩
      · rw [BitVec.le_def, succ_toNat more]
        exact BitVec.lt_def.mp more
      · rcases List.mem_append.mp mem with old | new
        · exact h.entries e' old
        · rw [List.mem_singleton.mp new]
          exact ⟨it.current, h.parser ▸ got⟩
    | error stop =>
      cases stop with
      | format f =>
        right
        simp only [turn, next, more, if_true, got]
      | panic => exact absurd got (Parser.getEntry_ne_panic _ _)
  · right
    simp only [turn, next, more, if_false]

/-- The loop over the entries ends, without a panic. -/
theorem leaves_ok (p : Parser) : ∃ es, Round.Leaves turn (p.entries, []) (.ok es) ∧
    ∀ e ∈ es, ∃ index, p.getEntry index = .ok e := by
  have start : Collects p p.entries [] := ⟨rfl, rfl, Nat.zero_le _, fun e mem => nomatch mem⟩
  obtain ⟨result, leaves⟩ : ∃ b, Round.Leaves turn (p.entries, []) b := by
    refine Round.exists_leaves (I := fun s => Collects p s.1 s.2)
      (fun s => s.1.count.toNat - s.1.current.toNat) start ?_
    rintro ⟨it, seen⟩ s' h again
    rcases turn_cases h with ⟨e, goes, more, collects⟩ | ends
    · obtain rfl := Round.again.inj (goes.symm.trans again)
      refine ⟨collects, ?_⟩
      have room := BitVec.lt_def.mp more
      change it.count.toNat - (it.current + 1).toNat < it.count.toNat - it.current.toNat
      rw [succ_toNat more]
      exact Nat.sub_lt_sub_left room (Nat.lt_succ_self _)
    · rw [ends] at again
      cases again
  have good : ∃ es, result = .ok es ∧ ∀ e ∈ es, ∃ index, p.getEntry index = .ok e := by
    refine leaves.post (I := fun s => Collects p s.1 s.2)
      (Q := fun b => ∃ es, b = .ok es ∧ ∀ e ∈ es, ∃ index, p.getEntry index = .ok e) start ?_ ?_
    · rintro ⟨it, seen⟩ s' h again
      rcases turn_cases h with ⟨e, goes, _, collects⟩ | ends
      · obtain rfl := Round.again.inj (goes.symm.trans again)
        exact collects
      · rw [ends] at again
        cases again
    · rintro ⟨it, seen⟩ b h leave
      rcases turn_cases h with ⟨e, goes, _⟩ | ends
      · rw [goes] at leave
        cases leave
      · obtain rfl := Round.leave.inj (ends.symm.trans leave)
        exact ⟨seen, rfl, h.entries⟩
  obtain ⟨es, rfl, from_table⟩ := good
  exact ⟨es, leaves, from_table⟩

end EntryIterator

/-! ## The files that are survived -/

/-- No call of the parser on the file panics. -/
structure Survives (data : List UInt8) : Prop where
  new : Parser.new data ≠ .error .panic
  entry : ∀ p, Parser.new data = .ok p → ∀ index, p.getEntry index ≠ .error .panic
  payload : ∀ p, Parser.new data = .ok p → ∀ index e, p.getEntry index = .ok e →
    p.getSegmentData .release e ≠ .error .panic
  iteration : ∀ p, Parser.new data = .ok p →
    ∃ es, Round.Leaves EntryIterator.turn (p.entries, []) (.ok es) ∧
      ∀ e ∈ es, p.getSegmentData .release e ≠ .error .panic

/-- The sum of the offset and the size in the entry at `start` wraps into the file. -/
def WrapsAt (data : List UInt8) (start : Nat) : Prop :=
  let offset := (leField 64 data (start + 8)).toNat
  let size := (leField 64 data (start + 24)).toNat
  2 ^ 64 ≤ offset + size ∧ offset + size - 2 ^ 64 ≤ data.length

/-- Where the header puts an entry. -/
def Header.entryStart (h : Header) (index : BitVec 16) : Nat := h.headerOffset.toNat + index.toNat * Entry.size

/-- The file is turned down, or no entry of its table wraps. -/
def Unwrapped (data : List UInt8) : Prop := ∀ header, Accepted data header →
  ∀ index < header.headerCount, header.entryStart index + Entry.size ≤ data.length →
    ¬WrapsAt data (header.entryStart index)

/-- The fields of an entry are those at its place in the file. -/
theorem Parser.getEntry_fields {p : Parser} {index : BitVec 16} {e : Entry} (got : p.getEntry index = .ok e) :
    e.fileOffset = leField 64 p.data (p.entryStart index + 8) ∧
      e.fileSize = leField 64 p.data (p.entryStart index + 24) := by
  obtain ⟨_, room, stored⟩ := Parser.getEntry_ok.mp got
  have width : (slice p.data (p.entryStart index) (p.entryStart index + Entry.size)).length = Entry.size := by
    rw [slice_length (Nat.le_add_right _ _) room, Nat.add_sub_cancel_left]
  have field : ∀ off, off + 8 ≤ Entry.size →
      leField 64 (slice p.data (p.entryStart index) (p.entryStart index + Entry.size)) off =
        leField 64 p.data (p.entryStart index + off) := by
    intro off inside
    simp only [leField, slice, Nat.add_sub_cancel_left]
    rw [List.drop_take, List.take_take, List.drop_drop, min_eq_left (by omega)]
  unfold Parser.storedEntry at stored
  rw [Entry.fromBytes_eq width.ge] at stored
  obtain rfl := Except.ok.inj stored
  exact ⟨field 8 (by decide), field 24 (by decide)⟩

theorem wrapsAt_iff {p : Parser} {index : BitVec 16} {e : Entry} (got : p.getEntry index = .ok e) :
    WrapsAt p.data (p.entryStart index) ↔ p.getSegmentData .release e = .error .panic := by
  obtain ⟨offset, size⟩ := Parser.getEntry_fields got
  rw [Parser.getSegmentData_panics, offset, size]
  rfl

/-- The parser survives a file exactly if no entry wraps. -/
theorem survives_iff (data : List UInt8) : Survives data ↔ Unwrapped data := by
  constructor
  · intro survives header accepted index valid room wraps
    have new : Parser.new data = .ok ⟨data, header⟩ := new_ok.mpr ⟨rfl, accepted⟩
    obtain ⟨e, stored⟩ : ∃ e, Parser.storedEntry ⟨data, header⟩ index = .ok e := Parser.storedEntry_ok room
    have got : Parser.getEntry ⟨data, header⟩ index = .ok e := Parser.getEntry_ok.mpr ⟨valid, room, stored⟩
    exact survives.payload _ new index e got ((wrapsAt_iff got).mp wraps)
  · intro unwrapped
    have payload : ∀ p, Parser.new data = .ok p → ∀ index e, p.getEntry index = .ok e →
        p.getSegmentData .release e ≠ .error .panic := by
      intro p new index e got panics
      obtain ⟨rfl, accepted⟩ := new_ok.mp new
      obtain ⟨valid, room, _⟩ := Parser.getEntry_ok.mp got
      exact unwrapped p.header accepted index valid room ((wrapsAt_iff got).mpr panics)
    refine ⟨new_ne_panic data, fun p _ => p.getEntry_ne_panic, payload, fun p new => ?_⟩
    obtain ⟨es, leaves, from_table⟩ := EntryIterator.leaves_ok p
    refine ⟨es, leaves, fun e mem => ?_⟩
    obtain ⟨index, got⟩ := from_table e mem
    exact payload p new index e got

theorem sealed_rest (h : Header) (rest : List UInt8) :
    slice (sealed h rest) Header.size (Header.size + rest.length) = rest := by
  unfold sealed
  rw [slice_append (Header.toBytes_length _).le, Header.toBytes_length]
  exact slice_whole (Nat.add_sub_cancel_left _ _).symm

/-- An entry whose payload starts at the last address and ends at the first. -/
def wrappedEntry : Entry := ⟨1, 0, BitVec.ofNat 64 (2 ^ 64 - 1), 0, 1, 4096, 0, 0, 0, 0⟩

def wrappedHeader : Header := imageHeader 1 1 0 0 1 124

/-- A file of 124 bytes with a correct checksum. -/
def wrappedFile : List UInt8 := sealed wrappedHeader wrappedEntry.toBytes

/-- The payload of its only entry is out of range. -/
theorem wrapped_entry_panics : ∃ p, Parser.new wrappedFile = .ok p ∧
    p.getEntry 0 = .ok wrappedEntry ∧ p.getSegmentData .release wrappedEntry = .error .panic ∧
    ¬Survives wrappedFile := by
  have new : Parser.new wrappedFile = _ := sealed_accepted rfl rfl rfl rfl
  set p : Parser := ⟨sealed wrappedHeader wrappedEntry.toBytes, _⟩
  have length : p.data.length = 124 := sealed_length _ _
  have stored : p.storedEntry 0 = .ok wrappedEntry := by
    have here : slice p.data 64 124 = wrappedEntry.toBytes := sealed_rest wrappedHeader wrappedEntry.toBytes
    change Entry.fromBytes (slice p.data 64 124) = _
    rw [here, Entry.fromBytes_toBytes]
  have got : p.getEntry 0 = .ok wrappedEntry := Parser.getEntry_ok.mpr ⟨by decide, length.ge, stored⟩
  have panics : p.getSegmentData .release wrappedEntry = .error .panic :=
    Parser.getSegmentData_panics.mpr ⟨by decide, by rw [length]; decide⟩
  exact ⟨p, new, got, panics, fun survives => survives.payload p new 0 _ got panics⟩

end CapsuleOS.Ohlink
