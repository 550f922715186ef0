import CapsuleOS.Osh.Parser

/-!
# What the parser of the shell returns

A line is the parts between bars, and a part the words between separators. The scan for words keeps the words that
are behind it, and the word that it is in (`scanWords_spec`); the scan for bars adds the parts that are behind it
(`scanStages_eq`). Bars and separators are single bytes, so no scan cuts inside a character.
-/
namespace CapsuleOS.Osh

open Lib

/-- The maximal runs of bytes that are no separators. -/
def words (part : Text) : List (List UInt8) := (part.bytes.splitOnP isSeparator).filter (· ≠ [])

/-- The parts that are not blank, trimmed. -/
def stagesOf (line : Text) : List Text := ((line.splitOn '|').map trim).filter (· ≠ [])

/-- The command has the first word for a name, and the next ones for arguments. -/
structure CommandOf (part : Text) (cmd : Command) : Prop where
  name : (words part)[0]? = some cmd.name.bytes
  argCount : cmd.argCount = min maxArgs ((words part).length - 1)
  args : ∀ k : Fin maxArgs, k.val < cmd.argCount → (words part)[k.val + 1]? = some (cmd.args k).bytes
  unused : ∀ k : Fin maxArgs, cmd.argCount ≤ k → cmd.args k = []

/-- The pipeline has the first stages, each with its command. -/
structure PipelineOf (stages : List Text) (p : Pipeline) : Prop where
  stageCount : p.stageCount = min maxStages stages.length
  commands : ∀ k : Fin maxStages, ∀ h : k.val < stages.length, CommandOf stages[k.val] (p.stages k)
  unused : ∀ k : Fin maxStages, stages.length ≤ k → p.stages k = .empty

/-! ## Marks -/

def separators : List Char := [' ', Char.ofNat 9, Char.ofNat 13, Char.ofNat 10]

def isSeparatorChar (c : Char) : Bool := decide (c ∈ separators)

theorem separator_marks : Text.Marks isSeparator isSeparatorChar := by
  have same : isSeparator = fun b => decide (b ∈ separators.map fun c => UInt8.ofNat c.toNat) := by
    funext b
    have codes : separators.map (fun c => UInt8.ofNat c.toNat) = [32, 9, 13, 10] := by decide
    simp [codes, isSeparator, Bool.or_assoc]
  rw [same]
  exact Text.marks_of_low (by decide)

theorem bar_marks : Text.Marks isBar (· == '|') := by
  have low : Text.Marks (fun b => decide (b ∈ ['|'].map fun c => UInt8.ofNat c.toNat))
      (fun c => decide (c ∈ ['|'])) := Text.marks_of_low (by decide)
  have bytes : isBar = fun b => decide (b ∈ ['|'].map fun c => UInt8.ofNat c.toNat) := by
    funext b
    have code : ['|'].map (fun c => UInt8.ofNat c.toNat) = [124] := by decide
    simp [code, isBar]
  have chars : (fun c : Char => c == '|') = fun c => decide (c ∈ ['|']) := by
    funext c
    simp [beq_eq_decide]
  rw [bytes, chars]
  exact low

theorem whitespace_not_bar (c : Char) (white : isWhitespace c = true) : (c == '|') = false := by
  by_contra bar
  obtain rfl : c = '|' := by simpa using bar
  exact absurd white (by decide)

theorem separator_whitespace (c : Char) (sep : isSeparatorChar c = true) : isWhitespace c = true := by
  have all : separators.all isWhitespace = true := by decide
  exact List.all_eq_true.mp all c (of_decide_eq_true sep)

/-! ## Words -/

section Words

variable {w w' : Words} {seen : List Text} {done word rest : Text} {c : Char} {startIdx : Nat}

/-- The words of a text, with what the first one begins with. -/
def wordsFrom (word rest : Text) : List Text :=
  ((rest.splitOnP isSeparatorChar).modifyHead (word ++ ·)).filter (· ≠ [])

theorem wordsFrom_nil : wordsFrom word [] = if word = [] then [] else [word] := by
  by_cases nothing : word = [] <;> simp [wordsFrom, nothing]

theorem wordsFrom_separator (sep : isSeparatorChar c = true) :
    wordsFrom word (c :: rest) = (if word = [] then [] else [word]) ++ wordsFrom [] rest := by
  unfold wordsFrom
  rw [Text.splitOnP_mark sep, List.modifyHead_cons, List.append_nil, Text.modifyHead_nil]
  by_cases nothing : word = [] <;> simp [nothing]

theorem wordsFrom_char (other : isSeparatorChar c = false) :
    wordsFrom word (c :: rest) = wordsFrom (word ++ [c]) rest := by
  rw [wordsFrom, Text.splitOnP_skip other, Text.modifyHead_append, wordsFrom]

theorem words_eq (part : Text) : words part = (wordsFrom [] part).map Text.bytes := by
  have filtered (xs : List Text) : (xs.map Text.bytes).filter (· ≠ []) = (xs.filter (· ≠ [])).map Text.bytes := by
    rw [List.filter_map]
    congr 1
    refine List.filter_congr fun x _ => ?_
    simp [Text.bytes_eq_nil]
  rw [words, separator_marks.bytes_splitOnP, filtered, wordsFrom, Text.modifyHead_nil]

/-- The words that were kept: the first is the name, the next ones are the arguments. -/
structure Words.Holds (w : Words) (seen : List Text) : Prop where
  wordCount : w.wordCount = seen.length
  name : w.name = (seen[0]?).getD []
  argCount : w.argCount = min maxArgs (seen.length - 1)
  args : ∀ k : Fin maxArgs, w.args k = (seen[k.val + 1]?).getD []

theorem start_holds : Words.start.Holds [] := ⟨rfl, rfl, rfl, fun _ => rfl⟩

def Words.next (w : Words) (word : Text) : Words :=
  let w := w.keep word
  { w with wordCount := w.wordCount + 1 }

theorem Words.Holds.next (h : w.Holds seen) (word : Text) : (w.next word).Holds (seen ++ [word]) := by
  have len : (seen ++ [word]).length = seen.length + 1 := by simp
  unfold Words.next Words.keep
  by_cases first : w.wordCount = 0
  · have nothing : seen = [] := List.length_eq_zero_iff.mp (h.wordCount.symm.trans first)
    subst nothing
    simp only [first, if_true]
    exact ⟨rfl, rfl, h.argCount, h.args⟩
  · have count := h.wordCount
    have argCount := h.argCount
    rw [if_neg first]
    by_cases room : w.argCount < maxArgs
    · rw [dif_pos room]
      have last : w.argCount = seen.length - 1 := by omega
      refine ⟨?_, ?_, ?_, fun k => ?_⟩
      · rw [len, ← count]
      · rw [List.getElem?_append_left (by omega)]
        exact h.name
      · dsimp only
        omega
      · dsimp only
        by_cases here : k = ⟨w.argCount, room⟩
        · subst here
          rw [Function.update_self, List.getElem?_append_right (by dsimp only; omega)]
          have zero : w.argCount + 1 - seen.length = 0 := by omega
          simp [zero]
        · have ne : k.val ≠ w.argCount := fun eq => here (Fin.ext eq)
          rw [Function.update_of_ne here, h.args k]
          by_cases old : k.val + 1 < seen.length
          · rw [List.getElem?_append_left old]
          · rw [List.getElem?_eq_none (by omega), List.getElem?_eq_none (by rw [len]; omega)]
    · rw [dif_neg room]
      refine ⟨?_, ?_, ?_, fun k => ?_⟩
      · rw [len, ← count]
      · rw [List.getElem?_append_left (by omega)]
        exact h.name
      · dsimp only
        omega
      · have lt := k.isLt
        rw [List.getElem?_append_left (by omega)]
        exact h.args k

/-! ## The scan for words -/

theorem scanWords_inside {trimmed : Text} {i : Nat} {more bs : List UInt8} (unmarked : ∀ b ∈ bs, isSeparator b = false) :
    scanWords trimmed i (bs ++ more) w true startIdx =
      scanWords trimmed (i + bs.length) more w true startIdx := by
  induction bs generalizing i with
  | nil => rfl
  | cons b bs ih =>
    obtain ⟨here, later⟩ := List.forall_mem_cons.mp unmarked
    rw [List.cons_append, scanWords, here, if_neg (by simp), if_pos rfl, ih later, List.length_cons]
    congr 1
    omega

/-- A character of a word, which it may begin. -/
theorem scanWords_char {trimmed : Text} {i : Nat} {more : List UInt8} {inWord : Bool}
    (other : isSeparatorChar c = false) :
    scanWords trimmed i (String.utf8EncodeChar c ++ more) w inWord startIdx =
      scanWords trimmed (i + (String.utf8EncodeChar c).length) more w true (if inWord then startIdx else i) := by
  have unmarked := separator_marks.miss c other
  obtain ⟨b, bs, enc⟩ := List.exists_cons_of_ne_nil (String.utf8EncodeChar_ne_nil (c := c))
  rw [enc] at unmarked ⊢
  obtain ⟨here, later⟩ := List.forall_mem_cons.mp unmarked
  cases inWord with
  | true => exact scanWords_inside unmarked
  | false =>
    rw [List.cons_append, scanWords, here, if_neg (by simp), if_neg (by simp), scanWords_inside later,
      List.length_cons, if_neg (by simp)]
    congr 1
    omega

/-- The words that are behind the scan are kept, and it is in a word that begins at `startIdx`. So the rest of the
scan, with the word that goes to the end, keeps the words of the rest. -/
theorem scanWords_spec (done word rest : Text) (holds : w.Holds seen)
    (at_word : word ≠ [] → startIdx = done.bytes.length) :
    ∃ w' inWord startIdx' last, ∃ full : Words, scanWords (done ++ word ++ rest) (Text.bytes (done ++ word)).length
        rest.bytes w (decide (word ≠ [])) startIdx = some (w', inWord, startIdx') ∧
      lastWord (done ++ word ++ rest) w' inWord startIdx' = some last ∧
      full.Holds (seen ++ wordsFrom word rest) ∧ last.command = full.command := by
  induction rest generalizing done word w seen startIdx with
  | nil =>
    rw [wordsFrom_nil]
    by_cases nothing : word = []
    · subst nothing
      exact ⟨w, false, startIdx, w, w, rfl, rfl, by simpa using holds, rfl⟩
    · have cut : (done ++ word ++ []).sliceFrom startIdx = some word := by
        rw [List.append_nil, at_word nothing, Text.sliceFrom_append]
      refine ⟨w, true, startIdx, w.keep word, w.next word, by simp [scanWords, nothing], ?_, ?_, rfl⟩
      · rw [lastWord, if_pos rfl, cut]
        rfl
      · rw [if_neg nothing]
        exact holds.next word
  | cons c rest ih =>
    rw [Text.bytes_cons]
    cases sep : isSeparatorChar c with
    | true =>
      obtain ⟨b, enc, mark⟩ := separator_marks.hit c sep
      have text : done ++ word ++ c :: rest = (done ++ word ++ [c]) ++ [] ++ rest := by simp
      have position : (Text.bytes (done ++ word)).length + 1 =
          (Text.bytes (done ++ word ++ [c] ++ [])).length := by simp [enc, Nat.add_assoc]
      rw [enc, List.singleton_append, scanWords, if_pos mark, wordsFrom_separator sep, position]
      by_cases nothing : word = []
      · have next := ih (done ++ word ++ [c]) [] holds (absurd rfl : [] ≠ [] → startIdx = _)
        simp only [nothing] at next ⊢
        simpa using next
      · have cut : (done ++ word ++ c :: rest).slice startIdx (Text.bytes (done ++ word)).length = some word := by
          rw [at_word nothing, Text.slice_append]
        have next := ih (done ++ word ++ [c]) [] (holds.next word) (absurd rfl : [] ≠ [] → startIdx = _)
        rw [if_pos (decide_eq_true nothing), cut, if_neg nothing, ← List.append_assoc seen, text]
        exact next
    | false =>
      have text : done ++ word ++ c :: rest = done ++ (word ++ [c]) ++ rest := by simp
      have position : (Text.bytes (done ++ word)).length + (String.utf8EncodeChar c).length =
          (Text.bytes (done ++ (word ++ [c]))).length := by simp [Nat.add_assoc]
      have begins : (if decide (word ≠ []) = true then startIdx else (Text.bytes (done ++ word)).length) =
          done.bytes.length := by
        by_cases nothing : word = []
        · simp [nothing]
        · rw [if_pos (decide_eq_true nothing), at_word nothing]
      have next := ih done (word ++ [c]) holds fun _ => begins
      have some_char : decide (word ++ [c] ≠ []) = true := by simp
      rw [some_char] at next
      rw [scanWords_char sep, wordsFrom_char sep, position, text]
      exact next

/-- A text that begins with another character than a separator has a word. -/
theorem wordsFrom_ne_nil (other : isSeparatorChar c = false) : wordsFrom [] (c :: rest) ≠ [] := by
  obtain ⟨first, others, parts⟩ := List.exists_cons_of_ne_nil (List.splitOnP_ne_nil isSeparatorChar rest)
  rw [wordsFrom, Text.splitOnP_skip other, parts]
  simp

@[simp] theorem command_name : w.command.name = w.name := rfl
@[simp] theorem command_args (k : Fin maxArgs) : w.command.args k = w.args k := rfl
@[simp] theorem command_argCount : w.command.argCount = w.argCount := rfl

theorem Words.Holds.commandOf {full : Words} {part : Text} (holds : full.Holds (wordsFrom [] part))
    (some_word : wordsFrom [] part ≠ []) : CommandOf part full.command := by
  have count := holds.argCount
  obtain ⟨first, others, found⟩ := List.exists_cons_of_ne_nil some_word
  refine ⟨?_, ?_, fun k lt => ?_, fun k le => ?_⟩
  · rw [command_name, holds.name, words_eq, found]
    rfl
  · rw [words_eq, List.length_map]
    exact count
  · rw [command_argCount] at lt
    have inside : k.val + 1 < (wordsFrom [] part).length := by omega
    rw [command_args, holds.args k, words_eq, List.getElem?_map, List.getElem?_eq_getElem inside]
    rfl
  · rw [command_argCount] at le
    have lt := k.isLt
    rw [command_args, holds.args k, List.getElem?_eq_none (by omega)]
    rfl

theorem splitWords_spec {stage : Text} (not_blank : trim stage ≠ []) :
    ∃ cmd, splitWords stage = some (some cmd) ∧ CommandOf (trim stage) cmd := by
  obtain ⟨c, rest, head⟩ := List.exists_cons_of_ne_nil not_blank
  have other : isSeparatorChar c = false := by
    by_contra sep
    have white := separator_whitespace c (by simpa using sep)
    rw [Text.trim_head head] at white
    cases white
  have some_word : wordsFrom [] (trim stage) ≠ [] := head ▸ wordsFrom_ne_nil other
  obtain ⟨w', inWord, startIdx, last, full, scanned, closed, holds, same⟩ :=
    scanWords_spec [] [] (trim stage) start_holds (absurd rfl : [] ≠ [] → 0 = _)
  have of := Words.Holds.commandOf holds some_word
  have named : last.name ≠ [] := by
    have name : last.name = full.command.name := congrArg Command.name same
    intro nothing
    have first := of.name
    rw [← name, nothing, words_eq] at first
    obtain ⟨x, mem, empty⟩ := List.mem_map.mp (List.mem_of_getElem? first)
    have some_char : x ≠ [] := by simpa using (List.mem_filter.mp mem).2
    exact some_char (Text.bytes_eq_nil.mp empty)
  refine ⟨full.command, ?_, of⟩
  have scanned : scanWords (trim stage) 0 (trim stage).bytes .start false 0 = some (w', inWord, startIdx) := scanned
  have closed : lastWord (trim stage) w' inWord startIdx = some last := closed
  simp only [splitWords, if_neg not_blank, scanned, Option.bind_eq_bind, Option.bind_some, closed, if_neg named,
    ← same]
  rfl

end Words

/-! ## Stages -/

section Stages

variable {p p' : Pipeline} {stages : List Text} {c : Char}

theorem empty_pipelineOf : PipelineOf [] Pipeline.empty :=
  ⟨rfl, fun _ h => absurd h (Nat.not_lt_zero _), fun _ _ => rfl⟩

theorem PipelineOf.push (h : PipelineOf stages p) {part : Text} {cmd : Command} (of : CommandOf part cmd) :
    PipelineOf (stages ++ [part]) (p.push cmd) := by
  have count := h.stageCount
  have len : (stages ++ [part]).length = stages.length + 1 := by simp
  unfold Pipeline.push
  by_cases room : p.stageCount < maxStages
  · rw [dif_pos room]
    have last : p.stageCount = stages.length := by omega
    refine ⟨by dsimp only; omega, fun k lt => ?_, fun k le => ?_⟩
    · dsimp only
      by_cases here : k = ⟨p.stageCount, room⟩
      · subst here
        rw [Function.update_self, List.getElem_append_right (by dsimp only; omega)]
        simpa using of
      · have ne : k.val ≠ p.stageCount := fun eq => here (Fin.ext eq)
        have old : k.val < stages.length := by omega
        rw [Function.update_of_ne here, List.getElem_append_left old]
        exact h.commands k old
    · have ne : k ≠ ⟨p.stageCount, room⟩ := fun eq => by
        have val := congrArg Fin.val eq
        dsimp only at val
        omega
      dsimp only
      rw [Function.update_of_ne ne]
      exact h.unused k (by omega)
  · rw [dif_neg room]
    refine ⟨by omega, fun k lt => ?_, fun k le => ?_⟩
    · have old := k.isLt
      rw [List.getElem_append_left (by omega)]
      exact h.commands k (by omega)
    · exact h.unused k (by omega)

/-- The trimmed parts that are not blank. -/
def notBlank (parts : List Text) : List Text := (parts.map trim).filter (· ≠ [])

theorem notBlank_cons (part : Text) (parts : List Text) :
    notBlank (part :: parts) = (if trim part = [] then [] else [trim part]) ++ notBlank parts := by
  unfold notBlank
  by_cases blank : trim part = [] <;> simp [blank]

theorem PipelineOf.add (h : PipelineOf stages p) (part : Text) :
    ∃ p', p.add part = some p' ∧ PipelineOf (stages ++ if trim part = [] then [] else [trim part]) p' := by
  by_cases blank : trim part = []
  · refine ⟨p, ?_, ?_⟩
    · rw [Pipeline.add, if_pos blank]
    · rw [if_pos blank, List.append_nil]
      exact h
  · obtain ⟨cmd, split, of⟩ := splitWords_spec blank
    refine ⟨p.push cmd, ?_, ?_⟩
    · rw [Pipeline.add, if_neg blank, split]
      rfl
    · rw [if_neg blank]
      exact h.push of

theorem PipelineOf.addAll (h : PipelineOf stages p) (parts : List Text) :
    ∃ p', parts.foldlM Pipeline.add p = some p' ∧ PipelineOf (stages ++ notBlank parts) p' := by
  induction parts generalizing p stages with
  | nil => exact ⟨p, rfl, by simpa [notBlank] using h⟩
  | cons part parts ih =>
    obtain ⟨next, added, holds⟩ := h.add part
    obtain ⟨p', rest, all⟩ := ih holds
    refine ⟨p', ?_, ?_⟩
    · rw [List.foldlM_cons, added]
      exact rest
    · rw [notBlank_cons, ← List.append_assoc]
      exact all

/-! ## The scan for bars -/

theorem scanStages_skip {trimmed : Text} {i stageStart : Nat} {more bs : List UInt8}
    (unmarked : ∀ b ∈ bs, isBar b = false) :
    scanStages trimmed i (bs ++ more) stageStart p = scanStages trimmed (i + bs.length) more stageStart p := by
  induction bs generalizing i with
  | nil => rfl
  | cons b bs ih =>
    obtain ⟨here, later⟩ := List.forall_mem_cons.mp unmarked
    rw [List.cons_append, scanStages, here, if_neg (by simp), ih later, List.length_cons]
    congr 1
    omega

/-- What `parseLine` does with the part behind the last bar. -/
def addFinal (trimmed : Text) (found : Nat × Pipeline) : Option Pipeline :=
  (trimmed.sliceFrom found.1).bind found.2.add

/-- `done` is behind the last bar that was found, and the scan is behind `part`. -/
theorem scanStages_eq (done part rest : Text) (p : Pipeline) :
    (scanStages (done ++ part ++ rest) (Text.bytes (done ++ part)).length rest.bytes done.bytes.length p).bind
        (addFinal (done ++ part ++ rest)) =
      ((rest.splitOnP (· == '|')).modifyHead (part ++ ·)).foldlM Pipeline.add p := by
  induction rest generalizing done part p with
  | nil =>
    have cut : (done ++ part).sliceFrom done.bytes.length = some part := Text.sliceFrom_append
    simp [scanStages, addFinal, cut]
  | cons c rest ih =>
    rw [Text.bytes_cons]
    cases bar : c == '|' with
    | true =>
      obtain ⟨b, enc, mark⟩ := bar_marks.hit c bar
      have text : done ++ part ++ [c] ++ rest = done ++ part ++ c :: rest := by simp
      have cut : (done ++ part ++ c :: rest).slice done.bytes.length (Text.bytes (done ++ part)).length = some part :=
        Text.slice_append
      have position : (Text.bytes (done ++ part)).length + 1 = (Text.bytes (done ++ part ++ [c])).length := by
        simp [enc, Nat.add_assoc]
      have parts : (c :: rest).splitOnP (· == '|') = [] :: rest.splitOnP (· == '|') := Text.splitOnP_mark bar
      rw [enc, List.singleton_append, scanStages, if_pos mark, cut, parts, List.modifyHead_cons, List.append_nil,
        List.foldlM_cons]
      cases added : p.add part with
      | none => simp [added]
      | some next =>
        have later := ih (done ++ part ++ [c]) [] next
        rw [List.append_nil, ← position, text, Text.modifyHead_nil] at later
        simp only [Option.bind_eq_bind, Option.bind_some, added]
        exact later
    | false =>
      have text : done ++ part ++ c :: rest = done ++ (part ++ [c]) ++ rest := by simp
      have position : (Text.bytes (done ++ part)).length + (String.utf8EncodeChar c).length =
          (Text.bytes (done ++ (part ++ [c]))).length := by simp [Nat.add_assoc]
      have parts : (c :: rest).splitOnP (· == '|') = (rest.splitOnP (· == '|')).modifyHead ([c] ++ ·) :=
        Text.splitOnP_skip bar
      rw [scanStages_skip (bar_marks.miss c bar), position, text, ih done (part ++ [c]) p, parts,
        Text.modifyHead_append]

/-- The parser adds the parts between bars, in order. -/
theorem parseLine_eq {line : Text} (not_blank : trim line ≠ []) : parseLine line =
    (((trim line).splitOnP (· == '|')).foldlM Pipeline.add .empty).map
      fun p => if p.stageCount = 0 then none else some p := by
  have scanned := scanStages_eq [] [] (trim line) .empty
  rw [Text.modifyHead_nil] at scanned
  rw [← scanned, parseLine, if_neg not_blank]
  simp only [List.nil_append, Text.bytes_nil, List.length_nil]
  cases scanStages (trim line) 0 (Text.bytes (trim line)) 0 .empty with
  | none => rfl
  | some found =>
    simp only [addFinal, Option.bind_eq_bind, Option.bind_some]
    cases (trim line).sliceFrom found.1 with
    | none => rfl
    | some final =>
      simp only [Option.bind_some]
      cases found.2.add final with
      | none => rfl
      | some p =>
        simp only [Option.bind_some, Option.map_some]
        split_ifs <;> rfl

theorem notBlank_eq_nil {parts : List Text} : notBlank parts = [] ↔ ∀ part ∈ parts, trim part = [] := by
  simp [notBlank, List.filter_eq_nil_iff]

theorem stagesOf_eq (line : Text) : notBlank ((trim line).splitOnP (· == '|')) = stagesOf line := by
  rw [notBlank, stagesOf, List.splitOn_eq_splitOnP]
  exact congrArg _ (Text.trim_parts whitespace_not_bar line)

end Stages

/-- No line makes the parser panic, and it returns nothing just for a line of blank parts. The pipeline has the first
stages of the line, each with its first words. -/
theorem parseLine_spec (line : Text) : ∃ result, parseLine line = some result ∧
    (result = none ↔ ∀ part ∈ line.splitOn '|', trim part = []) ∧ ∀ p, result = some p → PipelineOf (stagesOf line) p := by
  have blank_iff : stagesOf line = [] ↔ ∀ part ∈ line.splitOn '|', trim part = [] := notBlank_eq_nil
  rw [← blank_iff]
  by_cases blank : trim line = []
  · have nothing : stagesOf line = [] := by
      rw [← stagesOf_eq, blank]
      rfl
    exact ⟨none, by rw [parseLine, if_pos blank], by simp [nothing], fun p found => by cases found⟩
  · obtain ⟨p, added, holds⟩ := empty_pipelineOf.addAll ((trim line).splitOnP (· == '|'))
    rw [List.nil_append, stagesOf_eq] at holds
    have stageCount := holds.stageCount
    refine ⟨if p.stageCount = 0 then none else some p, ?_, ?_, fun p' found => ?_⟩
    · rw [parseLine_eq blank, added]
      rfl
    · rw [← List.length_eq_zero_iff]
      have stages : maxStages = 4 := rfl
      split_ifs with zero
      · exact iff_of_true rfl (by omega)
      · exact iff_of_false not_false (by omega)
    · split_ifs at found
      cases found
      exact holds

end CapsuleOS.Osh
