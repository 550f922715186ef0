import CapsuleOS.Cat.RunCat

/-!
# Line numbers

With `-n` every line is shown with its number in front. `numbered` says so for a whole content, line by line;
`numberedFrom` takes the content byte by byte and carries the state of `run_cat`, so that a content can be cut
anywhere.
-/
namespace CapsuleOS.Cat

open Lib

/-- The decimal digits of a number, as text. -/
def decimal (n : Nat) : List UInt8 := (Nat.toDigits 10 n).map fun c => UInt8.ofNat c.toNat

/-- A number, aligned to the right in six columns, and two spaces. -/
def label (n : Nat) : List UInt8 := List.replicate (6 - (decimal n).length) 32 ++ decimal n ++ [32, 32]

/-- A line ends behind a newline, or with the content. -/
def lines : List UInt8 → List (List UInt8)
  | [] => []
  | b :: bs =>
    if b = 10 then [b] :: lines bs
    else match lines bs with
      | [] => [[b]]
      | l :: ls => (b :: l) :: ls

/-- Lines with the labels of the numbers from `n` on. -/
def labelled (labels : Nat → List UInt8) (n : Nat) (ls : List (List UInt8)) : List UInt8 :=
  (ls.zipIdx n).flatMap fun (l, k) => labels k ++ l

def numbered (labels : Nat → List UInt8) (n : Nat) (content : List UInt8) : List UInt8 :=
  labelled labels n (lines content)

section Lines

variable {l : List UInt8} {content : List UInt8}

theorem lines_flatten (content : List UInt8) : (lines content).flatten = content := by
  induction content with
  | nil => rfl
  | cons b bs ih =>
    rw [lines]
    split_ifs
    · rw [List.flatten_cons, ih]
      rfl
    · cases rest : lines bs with
      | nil =>
        rw [rest] at ih
        rw [← ih]
        rfl
      | cons l ls =>
        rw [rest, List.flatten_cons] at ih
        rw [← ih]
        rfl

/-- A newline can only be the last byte of a line. -/
theorem lines_newline (mem : l ∈ lines content) : l ≠ [] ∧ 10 ∉ l.dropLast := by
  induction content generalizing l with
  | nil => cases mem
  | cons b bs ih =>
    rw [lines] at mem
    split_ifs at mem with newline
    · rcases List.mem_cons.mp mem with rfl | later
      · exact ⟨List.cons_ne_nil _ _, List.not_mem_nil⟩
      · exact ih later
    · cases rest : lines bs with
      | nil =>
        rw [rest, List.mem_singleton] at mem
        subst mem
        exact ⟨List.cons_ne_nil _ _, List.not_mem_nil⟩
      | cons k ks =>
        rw [rest] at mem ih
        rcases List.mem_cons.mp mem with rfl | later
        · obtain ⟨some_byte, inside⟩ := ih List.mem_cons_self
          refine ⟨List.cons_ne_nil _ _, ?_⟩
          rw [List.dropLast_cons_of_ne_nil some_byte, List.mem_cons]
          exact fun either => either.elim (fun eq => newline eq.symm) inside
        · exact ih (List.mem_cons_of_mem _ later)

/-- Every line but the last ends with a newline. -/
theorem lines_dropLast (mem : l ∈ (lines content).dropLast) : l.getLast? = some 10 := by
  induction content generalizing l with
  | nil => cases mem
  | cons b bs ih =>
    rw [lines] at mem
    split_ifs at mem with newline
    · cases rest : lines bs with
      | nil =>
        rw [rest] at mem
        cases mem
      | cons k ks =>
        rw [rest, List.dropLast_cons_of_ne_nil (List.cons_ne_nil k ks)] at mem
        rcases List.mem_cons.mp mem with rfl | later
        · rw [newline]
          rfl
        · exact ih (rest ▸ later)
    · cases rest : lines bs with
      | nil =>
        rw [rest] at mem
        cases mem
      | cons k ks =>
        have some_byte : k ≠ [] := (lines_newline (rest ▸ List.mem_cons_self)).1
        rw [rest] at mem ih
        cases ks with
        | nil => cases mem
        | cons k' ks =>
          rcases List.mem_cons.mp mem with rfl | later
          · rw [List.getLast?_cons_of_ne_nil some_byte]
            exact ih List.mem_cons_self
          · exact ih (List.mem_cons_of_mem _ later)

end Lines

/-! ## Digits -/

/-- The last digit, and those of the quotient. -/
theorem decimal_reverse (n : Nat) : (decimal n).reverse =
    [UInt8.ofNat (48 + n % 10)] ++ if n / 10 = 0 then [] else (decimal (n / 10)).reverse := by
  have digit : (Nat.digitChar (n % 10)).toNat = 48 + n % 10 :=
    Nat.toNat_digitChar_of_lt_ten (Nat.mod_lt n (by decide))
  by_cases small : n < 10
  · have quotient : n / 10 = 0 := Nat.div_eq_of_lt small
    rw [if_pos quotient, decimal, Nat.toDigits_of_lt_base small, ← digit, Nat.mod_eq_of_lt small]
    rfl
  · have quotient : ¬ n / 10 = 0 := by omega
    rw [if_neg quotient, decimal, Nat.toDigits_of_base_le (by decide) (by omega), List.map_append,
      List.reverse_append, ← digit]
    rfl

theorem digitLoop_digits {rounds val : Nat} (fits : val < 10 ^ rounds) (temp : List UInt8) :
    digitLoop rounds val temp = some (temp ++ if val = 0 then [] else (decimal val).reverse) := by
  induction rounds generalizing val temp with
  | zero =>
    have zero : val = 0 := by simpa using fits
    rw [digitLoop, if_pos zero, if_pos zero, List.append_nil]
  | succ rounds ih =>
    rw [digitLoop]
    split_ifs with zero
    · rw [List.append_nil]
    · have smaller : val / 10 < 10 ^ rounds := by
        rw [Nat.pow_succ] at fits
        omega
      rw [ih smaller, List.append_assoc, ← decimal_reverse]

theorem formatU64_decimal {n : Nat} (fits : n < 2 ^ 64) : formatU64 n = some (decimal n) := by
  have room : n < 10 ^ digitRoom := lt_trans fits (by decide)
  rw [formatU64]
  split_ifs with zero
  · rw [zero]
    rfl
  · rw [digitLoop_digits room, if_neg zero, List.nil_append, Option.map_some, List.reverse_reverse]

/-! ## Byte by byte -/

namespace LineState

/-- The state behind a byte. -/
def advance (st : LineState) (b : UInt8) : LineState :=
  ⟨if st.startOfLine then st.lineNum + 1 else st.lineNum, b = 10⟩

/-- What is in front of the next byte. -/
def heading (st : LineState) : List UInt8 := if st.startOfLine then label st.lineNum.toNat else []

end LineState

def numberedFrom : LineState → List UInt8 → List UInt8
  | _, [] => []
  | st, b :: bs => st.heading ++ b :: numberedFrom (st.advance b) bs

theorem numberedFrom_append (st : LineState) (xs ys : List UInt8) :
    numberedFrom st (xs ++ ys) = numberedFrom st xs ++ numberedFrom (xs.foldl LineState.advance st) ys := by
  induction xs generalizing st with
  | nil => rfl
  | cons b bs ih =>
    rw [List.cons_append, numberedFrom, numberedFrom, ih, List.foldl_cons, List.append_assoc, List.cons_append]

/-- The chunks of a content are as good as the content. -/
theorem streamed_numberedFrom (st : LineState) (chunks : List (List UInt8)) :
    streamed numberedFrom (fun st data => data.foldl LineState.advance st) st chunks =
      numberedFrom st chunks.flatten := by
  induction chunks generalizing st with
  | nil => rfl
  | cons c cs ih => rw [streamed, ih, List.flatten_cons, numberedFrom_append]

theorem labelled_cons (labels : Nat → List UInt8) (n : Nat) (l : List UInt8) (ls : List (List UInt8)) :
    labelled labels n (l :: ls) = labels n ++ (l ++ labelled labels (n + 1) ls) := by
  rw [labelled, List.zipIdx_cons, List.flatMap_cons, List.append_assoc]
  rfl

/-- The label of line `k` as `run_cat` counts. -/
def wrapped (k : Nat) : List UInt8 := label (k % 2 ^ 64)

/-- From the start of a line, and from inside a line that has its label already. -/
theorem numberedFrom_lines (n : Nat) (content : List UInt8) :
    numberedFrom ⟨BitVec.ofNat 64 n, true⟩ content = labelled wrapped n (lines content) ∧
    numberedFrom ⟨BitVec.ofNat 64 n, false⟩ content =
      (lines content).headD [] ++ labelled wrapped n (lines content).tail := by
  induction content generalizing n with
  | nil => exact ⟨rfl, rfl⟩
  | cons b bs ih =>
    have carried : BitVec.ofNat 64 n + 1 = BitVec.ofNat 64 (n + 1) := (BitVec.ofNat_add n 1).symm
    have heading : label (BitVec.ofNat 64 n).toNat = wrapped n := by
      rw [BitVec.toNat_ofNat]
      rfl
    obtain ⟨start, inside⟩ := ih n
    obtain ⟨next_start, next_inside⟩ := ih (n + 1)
    rw [numberedFrom, numberedFrom, lines]
    simp only [LineState.heading, LineState.advance, carried, heading, if_true]
    by_cases newline : b = 10
    · rw [if_pos newline, decide_eq_true newline, next_start, labelled_cons, newline]
      refine ⟨rfl, ?_⟩
      rw [if_neg (by decide), if_neg (by decide), start]
      rfl
    · rw [if_neg newline, decide_eq_false newline, next_inside, if_neg (by decide), if_neg (by decide), inside]
      cases lines bs with
      | nil => exact ⟨(labelled_cons wrapped n [b] []).symm, rfl⟩
      | cons l ls => exact ⟨(labelled_cons wrapped n (b :: l) ls).symm, rfl⟩

/-- The numbers are those of the lines as long as a `u64` holds them. -/
theorem numbered_small {content : List UInt8} (fits : (lines content).length < 2 ^ 64) :
    numbered wrapped 1 content = numbered label 1 content := by
  refine List.flatMap_congr fun p mem => ?_
  have number : p.2 < 2 ^ 64 := by
    have := List.snd_lt_of_mem_zipIdx mem
    omega
  simp only [wrapped, Nat.mod_eq_of_lt number]

/-! ## The program -/

section Program

variable {σ : Type} {env : FileSystem σ} {fd : Int} {ahead : σ → List (List UInt8)} {out : σ → List UInt8}

variable (streams : Streams env fd ahead out id)
include streams

theorem spaces_emits {α : Type} (xs : List α) :
    Emits ahead out (Prog.forEach (fun _ => Prog.modify (env.writeStdout [32])) xs) ()
      (List.replicate xs.length 32) := by
  induction xs with
  | nil => exact .pure ()
  | cons x xs ih => exact (streams.emits [32]).bind ih

theorem printLineNumber_emits (n : BitVec 64) :
    Emits ahead out (printLineNumber env n) () (label n.toNat) := by
  rw [printLineNumber, formatU64_decimal n.isLt]
  refine Emits.congr (Emits.bind (spaces_emits streams _)
    (Emits.bind (streams.emits (decimal n.toNat)) (streams.emits [32, 32]))) ?_
  have padding : 6 - min (decimal n.toNat).length 6 = 6 - (decimal n.toNat).length := by omega
  rw [List.length_range, padding, label, List.append_assoc]
  rfl

/-- The number of a line in front of its first byte. -/
theorem beginLine_emits (st : LineState) : Emits ahead out (beginLine env st)
    ⟨if st.startOfLine then st.lineNum + 1 else st.lineNum, false⟩ st.heading := by
  obtain ⟨lineNum, start⟩ := st
  cases start with
  | false => exact .pure _
  | true =>
    exact Emits.congr (Emits.bind (printLineNumber_emits streams lineNum) (.pure _)) (List.append_nil _)

/-- The scan writes whole lines, and leaves what is behind the last newline. -/
theorem scanLoop_emits {data : List UInt8} (post pre line : List UInt8) (st : LineState)
    (whole : data = pre ++ line ++ post) (fresh : st.startOfLine = true → line = []) :
    ∃ text done rest, Emits ahead out (scanLoop env data post.length (pre ++ line).length pre.length st)
        (done.length, post.foldl LineState.advance st) text ∧
      data = done ++ rest ∧ line ++ numberedFrom st post = text ++ rest := by
  induction post generalizing pre line st with
  | nil =>
    refine ⟨[], pre, line, .pure _, ?_, List.append_nil line⟩
    rw [whole, List.append_nil]
  | cons b bs ih =>
    have here : data[(pre ++ line).length]? = some b := by
      rw [whole, List.getElem?_append_right le_rfl, Nat.sub_self]
      rfl
    have past : (pre ++ line ++ [b]).length = (pre ++ line).length + 1 := List.length_append
    have split : data = pre ++ line ++ [b] ++ bs := by
      rw [whole, List.append_assoc (pre ++ line)]
      rfl
    -- the label can go in front of the pending bytes, for one of the two is empty
    have heading : line ++ st.heading = st.heading ++ line := by
      rw [LineState.heading]
      split_ifs with start
      · rw [fresh start, List.nil_append, List.append_nil]
      · exact List.append_nil line
    by_cases newline : b = 10
    · have slice : (data.take ((pre ++ line).length + 1)).drop pre.length = line ++ [b] := by
        rw [split, ← past, List.take_left, List.append_assoc, List.drop_left]
      obtain ⟨text, done, rest, emits, parts, shown⟩ := ih (pre ++ line ++ [b]) [] (st.advance b)
        (by rw [split, List.append_nil]) (fun _ => rfl)
      refine ⟨st.heading ++ (line ++ [b] ++ text), done, rest, ?_, parts, ?_⟩
      · refine Emits.bind (beginLine_emits streams st) ?_
        rw [here, if_pos (congrArg some newline), slice]
        refine Emits.bind (streams.emits (line ++ [b])) ?_
        have after : st.advance b = ⟨if st.startOfLine then st.lineNum + 1 else st.lineNum, true⟩ := by
          rw [LineState.advance, decide_eq_true newline]
        rw [List.append_nil, past, after] at emits
        rw [List.foldl_cons, after]
        exact emits
      · rw [List.nil_append] at shown
        rw [numberedFrom, shown, ← List.append_assoc, heading]
        simp only [List.append_assoc, List.cons_append, List.nil_append]
    · obtain ⟨text, done, rest, emits, parts, shown⟩ := ih pre (line ++ [b]) (st.advance b)
        (by rw [split, List.append_assoc pre]) (fun start => absurd (of_decide_eq_true start) newline)
      refine ⟨st.heading ++ text, done, rest, ?_, parts, ?_⟩
      · refine Emits.bind (beginLine_emits streams st) ?_
        rw [here, if_neg fun eq => newline (Option.some.inj eq)]
        have after : st.advance b = ⟨if st.startOfLine then st.lineNum + 1 else st.lineNum, false⟩ := by
          rw [LineState.advance, decide_eq_false newline]
        rw [← List.append_assoc pre, past, after] at emits
        rw [List.foldl_cons, after]
        exact emits
      · rw [numberedFrom, ← List.append_assoc, heading, List.append_assoc, List.append_assoc, ← shown]
        simp only [List.append_assoc, List.cons_append, List.nil_append]

theorem numberChunk_emits (data : List UInt8) (st : LineState) : Emits ahead out (numberChunk env data st)
    (data.foldl LineState.advance st) (numberedFrom st data) := by
  obtain ⟨text, done, rest, emits, parts, shown⟩ := scanLoop_emits streams data [] [] st rfl (fun _ => rfl)
  rw [List.nil_append] at shown
  rw [shown]
  refine Emits.bind emits ?_
  dsimp only
  have remaining : data.drop done.length = rest := by
    rw [show data = done ++ rest from parts, List.drop_left]
  by_cases some_byte : done.length < data.length
  · rw [if_pos some_byte, remaining]
    exact Emits.congr (Emits.bind (streams.emits rest) (.pure _)) (List.append_nil rest)
  · have empty : rest = [] := by rw [← remaining, List.drop_eq_nil_of_le (Nat.not_lt.mp some_byte)]
    rw [if_neg some_byte, empty]
    exact .pure _

theorem runCat_numbered {chunks : List (List UInt8)} (sizes : ∀ c ∈ chunks, c ≠ [] ∧ c.length ≤ bufferSize)
    {fuel : Nat} (enough : chunks.length < fuel) {path : String} {s₀ s : σ}
    (opened : env.openFile path s₀ = .ok fd s) (left : ahead s = chunks) :
    ∃ s', runCat env fuel path ⟨true⟩ s₀ = .ok () s' ∧ out s' = out s ++ numbered wrapped 1 chunks.flatten := by
  have shows : ∀ data st, Emits ahead out (showChunk env ⟨true⟩ data st)
      (data.foldl LineState.advance st) (numberedFrom st data) := numberChunk_emits streams
  obtain ⟨s₁, run, result⟩ := catLoop_streamed streams numberedFrom (fun st data => data.foldl LineState.advance st)
    shows sizes enough ⟨1, true⟩ left
  rw [streamed_numberedFrom] at result
  refine ⟨env.close fd s₁, by rw [runCat, Prog.bind_ok opened, run], ?_⟩
  rw [streams.close_out, result]
  exact congrArg _ (numberedFrom_lines 1 chunks.flatten).1

end Program

/-! ## A file in chunks -/

/-- What is left to read, and what was written and closed. -/
structure Session where
  reads : List (List UInt8)
  stdout : List UInt8
  closed : List Int

/-- The file is opened as `fd`, and read in the chunks of the session. -/
def chunked (fd : Int) : FileSystem Session where
  openFile _ := pure fd
  read _ _ s := .ok (s.reads.headD []) { s with reads := s.reads.tail }
  close fd s := { s with closed := fd :: s.closed }
  writeStdout data s := { s with stdout := s.stdout ++ data }

theorem chunked_streams (fd : Int) : Streams (chunked fd) fd Session.reads Session.stdout id where
  read _ := ⟨_, rfl, rfl, rfl⟩
  write_ahead _ _ := rfl
  write_out _ _ := rfl
  close_out _ := rfl

/-- For every content and every way to read it in chunks `run_cat` writes the content, and with `-n` its lines with
their numbers. A number is a `u64`, which is the number of the line up to line 2^64. -/
theorem cat_chunks (fd : Int) (path : String) (chunks : List (List UInt8))
    (sizes : ∀ c ∈ chunks, c ≠ [] ∧ c.length ≤ bufferSize) (fuel : Nat) (enough : chunks.length < fuel) :
    (∃ s, runCat (chunked fd) fuel path ⟨false⟩ ⟨chunks, [], []⟩ = .ok () s ∧ s.stdout = chunks.flatten) ∧
    ∃ s, runCat (chunked fd) fuel path ⟨true⟩ ⟨chunks, [], []⟩ = .ok () s ∧
      s.stdout = numbered wrapped 1 chunks.flatten ∧
      ((lines chunks.flatten).length < 2 ^ 64 → s.stdout = numbered label 1 chunks.flatten) := by
  have opened : (chunked fd).openFile path ⟨chunks, [], []⟩ = .ok fd ⟨chunks, [], []⟩ := rfl
  obtain ⟨s, run, quiet⟩ := runCat_quiet (chunked_streams fd) sizes enough opened rfl
  obtain ⟨s', run', shown⟩ := runCat_numbered (chunked_streams fd) sizes enough opened rfl
  refine ⟨⟨s, run, ?_⟩, s', run', shown, fun fits => ?_⟩
  · rw [quiet]
    exact List.flatMap_id
  · rw [shown]
    exact numbered_small fits

/-- A line that goes across two reads. -/
theorem cat_chunks_across : ∃ s, runCat (chunked 3) 4 "/a" ⟨true⟩ ⟨[[97], [98, 10], [99]], [], []⟩ = .ok () s ∧
    s.stdout = [32, 32, 32, 32, 32, 49, 32, 32, 97, 98, 10, 32, 32, 32, 32, 32, 50, 32, 32, 99] := by
  obtain ⟨-, s, run, -, shown⟩ := cat_chunks 3 "/a" [[97], [98, 10], [99]] (by decide) 4 (by decide)
  exact ⟨s, run, (shown (by decide)).trans (by decide)⟩

end CapsuleOS.Cat
