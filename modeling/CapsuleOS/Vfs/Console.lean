import CapsuleOS.Lib.LineEdit
import CapsuleOS.Shared.Status

/-!
# Reading from the console

`sys_read` on descriptor 0 takes bytes from the UART until a line ends or the buffer is full, and echoes
them. Erasing only moves `total` back; what is behind it in the buffer stays. The UART gives no byte for a
zero, which ends the call with what is there. Waiting for a byte that never comes and `sys_exit` are ends of
the call besides its return.
-/
namespace CapsuleOS

open Lib

/-- The bytes that the UART is going to give, and those it has been given. -/
structure Console where
  input : List UInt8
  screen : List UInt8

inductive ReadEnd where
  | returned (total : Nat) (slice : List UInt8) (console : Console)
  | failed (status : Status)
  | waits (slice : List UInt8) (console : Console)
  | exits (slice : List UInt8) (console : Console)

@[match_pattern] abbrev backspace : UInt8 := 8
@[match_pattern] abbrev lineFeed : UInt8 := 10
abbrev blankByte : UInt8 := 32

/-- Backspace and delete. -/
def erases (byte : UInt8) : Bool := byte = 0x7f ∨ byte = backspace

/-- Carriage return counts as a line feed. -/
def newline (byte : UInt8) : UInt8 := if byte = 13 then lineFeed else byte

/-- `^C` and a line feed. -/
def interruptEcho : List UInt8 := [94, 67, lineFeed]

/-- The loop of `sys_read`, with what the UART is going to give, the buffer, the count and the screen. -/
def readLoop : List UInt8 → List UInt8 → Nat → List UInt8 → ReadEnd
  | [], slice, total, screen =>
    if total < slice.length then .waits slice ⟨[], screen⟩ else .returned total slice ⟨[], screen⟩
  | byte :: input, slice, total, screen =>
    if total < slice.length then
      -- `getchar` has nothing to give
      if byte = 0 then .returned total slice ⟨input, screen⟩
      else if erases byte then
        if total > 0 then
          readLoop input slice (total - 1) (screen ++ [backspace, blankByte, backspace])
        else readLoop input slice total screen
      else if byte = 3 then .exits slice ⟨input, screen ++ interruptEcho⟩
      else
        let slice := slice.set total (newline byte)
        let screen := screen ++ [newline byte]
        if newline byte = lineFeed then .returned (total + 1) slice ⟨input, screen⟩
        else readLoop input slice (total + 1) screen
    else .returned total slice ⟨byte :: input, screen⟩

/-- `sys_read(0, buf_ptr, buf_len)`; the buffer is that at `buf_ptr`. -/
def sysRead (bufPtr : Nat) (slice : List UInt8) (console : Console) : ReadEnd :=
  if bufPtr = 0 ∨ slice.length = 0 then .failed .invalidArgs
  else readLoop console.input slice 0 console.screen

/-! ## What has been typed -/

/-- A byte that changes the line and does not end it. -/
def Plain (byte : UInt8) : Prop := byte ≠ 0 ∧ byte ≠ 3 ∧ byte ≠ lineFeed ∧ byte ≠ 13

def keyOf (byte : UInt8) : Key UInt8 := if erases byte then .erase else .insert byte

/-- The line after some plain bytes. -/
def lineAfter (line typed : List UInt8) : List UInt8 := edited line (typed.map keyOf)

def byteOf : Code UInt8 → UInt8
  | .glyph a => a
  | .back => backspace

/-- What is echoed for some plain bytes. -/
def echo (line typed : List UInt8) : List UInt8 := (echoed blankByte line (typed.map keyOf)).map byteOf

/-- Plain bytes during which the line never fills `cap` bytes. -/
structure FitsFrom (cap : Nat) (line typed : List UInt8) : Prop where
  plain : ∀ b ∈ typed, Plain b
  room : ∀ p, p <+: typed → (lineAfter line p).length < cap

theorem FitsFrom.nil {cap : Nat} {line : List UInt8} (room : line.length < cap) : FitsFrom cap line [] := by
  refine ⟨by simp, fun p pre => ?_⟩
  obtain rfl := List.prefix_nil.mp pre
  exact room

theorem FitsFrom.cons {cap : Nat} {line typed : List UInt8} {byte : UInt8} (plain : Plain byte)
    (room : line.length < cap) (fits : FitsFrom cap ((keyOf byte).apply line) typed) :
    FitsFrom cap line (byte :: typed) := by
  refine ⟨fun b mem => ?_, fun p pre => ?_⟩
  · rcases List.mem_cons.mp mem with rfl | later
    · exact plain
    · exact fits.plain b later
  · rcases List.prefix_cons_iff.mp pre with rfl | ⟨q, rfl, pre'⟩
    · exact room
    · exact fits.room q pre'

/-- Nothing that is short can fill the buffer. -/
theorem FitsFrom.of_short {cap : Nat} {line typed : List UInt8} (plain : ∀ b ∈ typed, Plain b)
    (short : line.length + typed.length < cap) : FitsFrom cap line typed := by
  refine ⟨plain, fun p pre => ?_⟩
  have grown := edited_length_le line (p.map keyOf)
  have part := pre.length_le
  rw [List.length_map] at grown
  exact lt_of_le_of_lt grown (by omega)

/-- How a read ends that has taken the plain bytes `typed` from `input` and then what ends it. The buffer
holds the line in front. -/
inductive ReadResult (cap : Nat) (line typed input screen : List UInt8) : ReadEnd → Prop where
  | waits {slice : List UInt8} (same : input = typed) :
      ReadResult cap line typed input screen (.waits slice ⟨[], screen ++ echo line typed⟩)
  | line {slice rest : List UInt8} {total : Nat} {byte : UInt8} (ends : newline byte = lineFeed)
      (same : input = typed ++ byte :: rest) (length : slice.length = cap) (within : total ≤ cap)
      (took : slice.take total = lineAfter line typed ++ [lineFeed]) :
      ReadResult cap line typed input screen
        (.returned total slice ⟨rest, screen ++ echo line typed ++ [lineFeed]⟩)
  | zero {slice rest : List UInt8} {total : Nat} (same : input = typed ++ 0 :: rest)
      (length : slice.length = cap) (within : total ≤ cap) (took : slice.take total = lineAfter line typed) :
      ReadResult cap line typed input screen (.returned total slice ⟨rest, screen ++ echo line typed⟩)
  | full {slice rest : List UInt8} {byte : UInt8} (plain : Plain byte) (key : keyOf byte = .insert byte)
      (same : input = typed ++ byte :: rest) (length : slice.length = cap)
      (took : slice = lineAfter line typed ++ [byte]) :
      ReadResult cap line typed input screen
        (.returned cap slice ⟨rest, screen ++ echo line typed ++ [byte]⟩)
  | interrupted {slice rest : List UInt8} (same : input = typed ++ 3 :: rest) :
      ReadResult cap line typed input screen
        (.exits slice ⟨rest, screen ++ echo line typed ++ interruptEcho⟩)

section Loop

variable {cap : Nat} {line typed input screen slice : List UInt8} {byte : UInt8} {total : Nat}

theorem echo_cons (line typed : List UInt8) (byte : UInt8) : echo line (byte :: typed) =
    ((keyOf byte).echo blankByte line).map byteOf ++ echo ((keyOf byte).apply line) typed := by
  simp [echo, echoed]

/-- A byte in front of a read. -/
theorem ReadResult.cons {r : ReadEnd}
    (h : ReadResult cap ((keyOf byte).apply line) typed input
      (screen ++ ((keyOf byte).echo blankByte line).map byteOf) r) :
    ReadResult cap line (byte :: typed) (byte :: input) screen r := by
  have more : screen ++ ((keyOf byte).echo blankByte line).map byteOf ++ echo ((keyOf byte).apply line) typed =
      screen ++ echo line (byte :: typed) := by rw [echo_cons, List.append_assoc]
  cases h with
  | waits same =>
    rw [more]
    exact .waits (by rw [same])
  | line ends same length within took =>
    rw [more]
    exact .line ends (by rw [same]; rfl) length within took
  | zero same length within took =>
    rw [more]
    exact .zero (by rw [same]; rfl) length within took
  | full plain key same length took =>
    rw [more]
    exact .full plain key (by rw [same]; rfl) length took
  | interrupted same =>
    rw [more]
    exact .interrupted (by rw [same]; rfl)

@[simp] theorem echo_nil (line : List UInt8) : echo line [] = [] := rfl

@[simp] theorem lineAfter_nil (line : List UInt8) : lineAfter line [] = line := rfl

/-- Writing at `total` extends the line. -/
theorem take_set (room : total < slice.length) : (slice.set total byte).take (total + 1) = slice.take total ++ [byte] := by
  rw [List.take_add_one, List.take_set_of_le le_rfl, List.getElem?_set_self room]
  rfl

theorem readLoop_result (room : total < slice.length) :
    ∃ typed, FitsFrom slice.length (slice.take total) typed ∧
      ReadResult slice.length (slice.take total) typed input screen (readLoop input slice total screen) := by
  have lineRoom : (slice.take total).length < slice.length := by
    rw [List.length_take]
    omega
  induction input generalizing slice total screen with
  | nil =>
    refine ⟨[], .nil lineRoom, ?_⟩
    rw [readLoop, if_pos room]
    have now : ReadResult slice.length (slice.take total) [] [] screen
        (.waits slice ⟨[], screen ++ echo (slice.take total) []⟩) := .waits rfl
    simpa using now
  | cons byte input ih =>
    rw [readLoop, if_pos room]
    by_cases zero : byte = 0
    · subst zero
      refine ⟨[], .nil lineRoom, ?_⟩
      have now : ReadResult slice.length (slice.take total) [] (0 :: input) screen
          (.returned total slice ⟨input, screen ++ echo (slice.take total) []⟩) := .zero rfl rfl room.le rfl
      simpa using now
    · rw [if_neg zero]
      by_cases erase : erases byte = true
      · have key : keyOf byte = .erase := if_pos erase
        have plain : Plain byte := by
          unfold erases at erase
          have cases' : byte = 0x7f ∨ byte = backspace := by simpa using erase
          rcases cases' with rfl | rfl <;> exact ⟨by decide, by decide, by decide, by decide⟩
        rw [if_pos erase]
        by_cases some_byte : total > 0
        · have shorter : slice.take (total - 1) = (keyOf byte).apply (slice.take total) := by
            rw [key, Key.apply, List.dropLast_take room]
          have echo_eq : ((keyOf byte).echo blankByte (slice.take total)).map byteOf =
              [backspace, blankByte, backspace] := by
            have ne : slice.take total ≠ [] := by
              intro nil
              have length := congrArg List.length nil
              rw [List.length_take, List.length_nil] at length
              omega
            rw [key]
            cases h : slice.take total with
            | nil => exact absurd h ne
            | cons _ _ => rfl
          rw [if_pos some_byte]
          have room' : total - 1 < slice.length := by omega
          have lineRoom' : (slice.take (total - 1)).length < slice.length := by
            rw [List.length_take]
            omega
          obtain ⟨typed, fits, result⟩ := @ih (screen ++ [backspace, blankByte, backspace]) _ _ room' lineRoom'
          rw [shorter] at fits result
          rw [← echo_eq] at result
          exact ⟨byte :: typed, .cons plain lineRoom fits, echo_eq ▸ result.cons⟩
        · obtain rfl : total = 0 := by omega
          obtain ⟨typed, fits, result⟩ := @ih screen _ _ room lineRoom
          rw [if_neg some_byte]
          have same : (keyOf byte).apply (slice.take 0) = slice.take 0 := by rw [key]; rfl
          have silent : ((keyOf byte).echo blankByte (slice.take 0)).map byteOf = [] := by rw [key]; rfl
          refine ⟨byte :: typed, .cons plain lineRoom (same.symm ▸ fits), .cons ?_⟩
          rw [same, silent, List.append_nil]
          exact result
      · rw [if_neg erase]
        by_cases interrupt : byte = 3
        · subst interrupt
          refine ⟨[], .nil lineRoom, ?_⟩
          have now : ReadResult slice.length (slice.take total) [] (3 :: input) screen
              (.exits slice ⟨input, screen ++ echo (slice.take total) [] ++ interruptEcho⟩) := .interrupted rfl
          simpa using now
        · rw [if_neg interrupt]
          dsimp only
          have length : (slice.set total (newline byte)).length = slice.length := List.length_set
          by_cases ends : newline byte = lineFeed
          · rw [if_pos ends]
            refine ⟨[], .nil lineRoom, ?_⟩
            have took : (slice.set total (newline byte)).take (total + 1) =
                lineAfter (slice.take total) [] ++ [lineFeed] := by rw [take_set room, ends]; rfl
            have now : ReadResult slice.length (slice.take total) [] (byte :: input) screen
                (.returned (total + 1) (slice.set total (newline byte))
                  ⟨input, screen ++ echo (slice.take total) [] ++ [lineFeed]⟩) := .line ends rfl length room took
            simpa [ends] using now
          · rw [if_neg ends]
            have key : keyOf byte = .insert byte := if_neg erase
            have plain : Plain byte := by
              refine ⟨zero, interrupt, fun eq => ends ?_, fun eq => ends ?_⟩ <;> subst eq <;> rfl
            have same : newline byte = byte := if_neg plain.2.2.2
            rw [same] at length ⊢
            have longer : (slice.set total byte).take (total + 1) = (keyOf byte).apply (slice.take total) := by
              rw [key, take_set room, Key.apply]
            have echo_eq : ((keyOf byte).echo blankByte (slice.take total)).map byteOf = [byte] := by rw [key]; rfl
            by_cases more : total + 1 < slice.length
            · have room' : total + 1 < (slice.set total byte).length := by rwa [length]
              have lineRoom' : ((slice.set total byte).take (total + 1)).length < (slice.set total byte).length := by
                rw [List.length_take]
                omega
              obtain ⟨typed, fits, result⟩ := @ih (screen ++ [byte]) _ _ room' lineRoom'
              rw [longer, length] at fits result
              rw [← echo_eq] at result
              exact ⟨byte :: typed, .cons plain lineRoom fits, echo_eq ▸ result.cons⟩
            · have all : total + 1 = slice.length := by omega
              refine ⟨[], .nil lineRoom, ?_⟩
              have took : slice.set total byte = lineAfter (slice.take total) [] ++ [byte] := by
                rw [lineAfter_nil, ← take_set room, List.take_of_length_le (by rw [length]; omega)]
              have stopped : readLoop input (slice.set total byte) (total + 1) (screen ++ [byte]) =
                  .returned slice.length (slice.set total byte) ⟨input, screen ++ [byte]⟩ := by
                cases input <;> rw [readLoop, if_neg (by rw [length]; omega), all]
              rw [stopped]
              have now : ReadResult slice.length (slice.take total) [] (byte :: input) screen
                  (.returned slice.length (slice.set total byte)
                    ⟨input, screen ++ echo (slice.take total) [] ++ [byte]⟩) := .full plain key rfl length took
              simpa using now

end Loop

/-! ## What is seen -/

def Printable (byte : UInt8) : Prop := 32 ≤ byte ∧ byte ≠ 0x7f

instance (byte : UInt8) : Decidable (Printable byte) := inferInstanceAs (Decidable (_ ∧ _))

/-- What a terminal makes of a byte; other control bytes are not described. -/
def readCode (byte : UInt8) : Option (Code UInt8) :=
  if byte = backspace then some .back else if Printable byte then some (.glyph byte) else none

/-- The echo of keys and printable bytes is read as it was meant. -/
theorem echo_readCode {line typed : List UInt8} (seen : ∀ b ∈ typed, erases b = true ∨ Printable b) :
    (echo line typed).mapM readCode = some (echoed blankByte line (typed.map keyOf)) := by
  induction typed generalizing line with
  | nil => rfl
  | cons byte typed ih =>
    have later := @ih ((keyOf byte).apply line) fun b mem => seen b (List.mem_cons_of_mem _ mem)
    have first : (((keyOf byte).echo blankByte line).map byteOf).mapM readCode =
        some ((keyOf byte).echo blankByte line) := by
      by_cases erase : erases byte = true
      · rw [show keyOf byte = .erase from if_pos erase]
        cases line <;> rfl
      · rw [show keyOf byte = .insert byte from if_neg erase]
        have shown := (seen byte List.mem_cons_self).resolve_left erase
        have ne : byte ≠ backspace := by
          rintro rfl
          exact erase rfl
        simp [Key.echo, byteOf, readCode, ne, shown]
    rw [echo_cons, List.mapM_append, first, later]
    rfl

/-- The call takes plain bytes while there is room, and ends with the byte that ends a line, stops the thread
or fills the buffer. It returns the line as it was edited, and what a terminal shows is this line. -/
def ReadsLine (slice : List UInt8) (console : Console) (r : ReadEnd) : Prop :=
  ∃ typed, FitsFrom slice.length [] typed ∧ ReadResult slice.length [] typed console.input console.screen r ∧
    ((∀ b ∈ typed, erases b = true ∨ Printable b) → ∀ base d, Mirrors blankByte base [] d →
      ∃ codes, (echo [] typed).mapM readCode = some codes ∧
        Mirrors blankByte base (lineAfter [] typed) (d.shows codes))

theorem sysRead_result {bufPtr : Nat} {slice : List UInt8} (valid : bufPtr ≠ 0) (some_room : slice ≠ [])
    (console : Console) : ∃ typed, FitsFrom slice.length [] typed ∧
      ReadResult slice.length [] typed console.input console.screen (sysRead bufPtr slice console) := by
  have length : slice.length ≠ 0 := by simpa using some_room
  obtain ⟨typed, fits, result⟩ := @readLoop_result console.input console.screen slice 0
    (Nat.pos_of_ne_zero length)
  rw [List.take_zero] at fits result
  refine ⟨typed, fits, ?_⟩
  rw [sysRead, if_neg (by simp [valid, length])]
  exact result

/-- For every buffer and whatever comes from the console. -/
theorem console_read {bufPtr : Nat} {slice : List UInt8} (valid : bufPtr ≠ 0) (some_room : slice ≠ [])
    (console : Console) : ReadsLine slice console (sysRead bufPtr slice console) := by
  obtain ⟨typed, fits, result⟩ := sysRead_result valid some_room console
  exact ⟨typed, fits, result, fun seen base d mirrors => ⟨_, echo_readCode seen, mirrors.echo _⟩⟩

/-- `ab`, the second erased, `c` and a carriage return, into four bytes. -/
theorem console_read_erased : ReadsLine [0, 0, 0, 0] ⟨[97, 98, 8, 99, 13, 100], []⟩
    (.returned 3 [97, 99, 10, 0] ⟨[100], [97, 98, 8, 32, 8, 99, 10]⟩) :=
  console_read (show (4096 : Nat) ≠ 0 by decide) (by decide) ⟨[97, 98, 8, 99, 13, 100], []⟩

/-! ## A line that is typed -/

instance (byte : UInt8) : Decidable (Plain byte) := inferInstanceAs (Decidable (_ ∧ _ ∧ _ ∧ _))

/-- A list of plain bytes with another byte behind it. -/
theorem takeWhile_plain {typed rest : List UInt8} {byte : UInt8} (plain : ∀ b ∈ typed, Plain b)
    (other : ¬Plain byte) : (typed ++ byte :: rest).takeWhile (Plain ·) = typed := by
  rw [List.takeWhile_append_of_pos (by simpa using plain), List.takeWhile_cons_of_neg (by simpa using other),
    List.append_nil]

theorem newline_not_plain {byte : UInt8} (ends : newline byte = lineFeed) : ¬Plain byte := by
  rintro ⟨-, -, other, other'⟩
  rw [newline, if_neg other'] at ends
  exact other ends

/-- What is there after a line that fits has been typed. -/
theorem sysRead_line {bufPtr : Nat} {slice typed rest screen : List UInt8} {byte : UInt8} (valid : bufPtr ≠ 0)
    (fits : FitsFrom slice.length [] typed) (ends : newline byte = lineFeed) :
    ∃ total slice', sysRead bufPtr slice ⟨typed ++ byte :: rest, screen⟩ =
        .returned total slice' ⟨rest, screen ++ echo [] typed ++ [lineFeed]⟩ ∧
      slice'.length = slice.length ∧ total ≤ slice'.length ∧ slice'.take total = lineAfter [] typed ++ [lineFeed] := by
  have some_room : slice ≠ [] := by
    rintro rfl
    exact absurd (fits.room [] (List.nil_prefix)) (by simp)
  obtain ⟨typed', fits', result⟩ := sysRead_result valid some_room ⟨typed ++ byte :: rest, screen⟩
  have found : (typed ++ byte :: rest).takeWhile (Plain ·) = typed := takeWhile_plain fits.plain (newline_not_plain ends)
  -- the first byte that is not plain ends the line
  have split : ∀ {b more}, ¬Plain b → typed ++ byte :: rest = typed' ++ b :: more →
      typed = typed' ∧ byte = b ∧ rest = more := by
    intro b more other same
    have eq : typed = typed' := by
      rw [← found, same, takeWhile_plain fits'.plain other]
    subst eq
    exact ⟨rfl, List.cons.inj (List.append_cancel_left same)⟩
  generalize sysRead bufPtr slice ⟨typed ++ byte :: rest, screen⟩ = r at result
  cases result with
  | waits same =>
    have same : typed ++ byte :: rest = typed' := same
    exact absurd (fits'.plain byte (by simp [← same])) (newline_not_plain ends)
  | line ends' same length within took =>
    obtain ⟨rfl, rfl, rfl⟩ := split (newline_not_plain ends') same
    exact ⟨_, _, rfl, length, length.symm ▸ within, took⟩
  | zero same =>
    obtain ⟨-, rfl, -⟩ := split (by simp [Plain]) same
    exact absurd ends (by decide)
  | interrupted same =>
    obtain ⟨-, rfl, -⟩ := split (by simp [Plain]) same
    exact absurd ends (by decide)
  | @full slice' more b plain key same length took =>
    -- the line would have filled the buffer
    have same : typed ++ byte :: rest = typed' ++ b :: more := same
    have pre : typed' ++ [b] <+: typed := by
      rw [← found, same, show typed' ++ b :: more = (typed' ++ [b]) ++ more by simp,
        List.takeWhile_append_of_pos (by simpa [or_imp, forall_and] using And.intro fits'.plain plain)]
      exact List.prefix_append _ _
    have short := fits.room _ pre
    have filled : (lineAfter [] (typed' ++ [b])).length = slice'.length := by
      rw [took, lineAfter, List.map_append, edited_append, List.map_singleton, key]
      rfl
    omega

/-- A line that has been begun. -/
theorem sysRead_waits {bufPtr : Nat} {slice typed screen : List UInt8} (valid : bufPtr ≠ 0)
    (fits : FitsFrom slice.length [] typed) : ∃ slice',
      sysRead bufPtr slice ⟨typed, screen⟩ = .waits slice' ⟨[], screen ++ echo [] typed⟩ := by
  have some_room : slice ≠ [] := by
    rintro rfl
    exact absurd (fits.room [] (List.nil_prefix)) (by simp)
  obtain ⟨typed', fits', result⟩ := sysRead_result valid some_room ⟨typed, screen⟩
  have mem : ∀ {b more}, typed = typed' ++ b :: more → Plain b := fun {b more} same => fits.plain b (by simp [same])
  generalize sysRead bufPtr slice ⟨typed, screen⟩ = r at result
  cases result with
  | waits same =>
    obtain rfl : typed = typed' := same
    exact ⟨_, rfl⟩
  | line ends' same => exact absurd (mem same) (newline_not_plain ends')
  | zero same => exact absurd (mem same) (by simp [Plain])
  | interrupted same => exact absurd (mem same) (by simp [Plain])
  | @full slice' more b plain key same length took =>
    have pre : typed' ++ [b] <+: typed := ⟨more, by rw [show typed = _ from same]; simp⟩
    have short := fits.room _ pre
    have filled : (lineAfter [] (typed' ++ [b])).length = slice'.length := by
      rw [took, lineAfter, List.map_append, edited_append, List.map_singleton, key]
      rfl
    omega

end CapsuleOS
