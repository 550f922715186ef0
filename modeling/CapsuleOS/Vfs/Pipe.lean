import CapsuleOS.Lib.Ring
import CapsuleOS.Lib.Runs
import CapsuleOS.Shared.Status

/-!
# Pipes

The pipe table of the kernel and the four calls on it. A pipe is a ring of `PIPE_BUF_SIZE` bytes: bytes
are pushed at `head` and popped at `tail`, one cell stays free. `Pipe.Unread` relates the ring to the
bytes that were written and not yet read, and `pipe_stream` says that what readers get is what writers
have put in, in order.

A call with the id of no slot is an index out of bounds.
-/
namespace CapsuleOS

open Lib

def pipeBufSize : Nat := 4096
def maxPipes : Nat := 16

inductive PipeRole where
  | read
  | write
  deriving DecidableEq, Repr

structure Pipe where
  buf : Fin pipeBufSize → UInt8
  head : Fin pipeBufSize
  tail : Fin pipeBufSize
  nReaders : Nat
  nWriters : Nat

abbrev PipeM := Prog Pipe Status

namespace Pipe

def newUninit : Pipe where
  buf _ := 0
  head := ⟨0, by decide⟩
  tail := ⟨0, by decide⟩
  nReaders := 0
  nWriters := 0

def count (p : Pipe) : PipeRole → Nat
  | .read => p.nReaders
  | .write => p.nWriters

def setCount (p : Pipe) (role : PipeRole) (n : Nat) : Pipe :=
  match role with
  | .read => { p with nReaders := n }
  | .write => { p with nWriters := n }

/-- The loop of `pipe_read` for `want` more bytes; it returns the bytes. -/
def readLoop : Nat → PipeM (List UInt8)
  | 0 => pure []
  | want + 1 => do
    let p ← Prog.get
    if p.head = p.tail then return []
    else
      Prog.modify fun p => { p with tail := Ring.next p.tail }
      let rest ← readLoop want
      return p.buf p.tail :: rest

def read (len : Nat) : PipeM (List UInt8) := do
  let p ← Prog.get
  if p.nWriters = 0 ∧ p.head = p.tail then return [] else readLoop len

/-- The loop of `pipe_write` after `n` bytes. -/
def writeLoop : List UInt8 → Nat → PipeM Nat
  | [], n => pure n
  | b :: bs, n => do
    let p ← Prog.get
    if Ring.next p.head = p.tail then
      if n = 0 then Prog.throw .notAllowed else return n
    else
      Prog.modify fun p => { p with buf := Function.update p.buf p.head b, head := Ring.next p.head }
      writeLoop bs (n + 1)

def write (buf : List UInt8) : PipeM Nat := do
  let p ← Prog.get
  if p.nReaders = 0 then Prog.throw .peerClosed else writeLoop buf 0

end Pipe

structure Pipes where
  table : Fin maxPipes → Option Pipe
  nextPipeId : Nat

abbrev PipesM := Prog Pipes Status

namespace Pipes

def init : Pipes := ⟨fun _ => none, 0⟩

def set (t : Pipes) (i : Fin maxPipes) (p : Option Pipe) : Pipes :=
  { t with table := Function.update t.table i p }

/-- The counter is a `usize`, the id its lower half. -/
def allocPipe : PipesM Nat := fun t =>
  let id := t.nextPipeId % 2 ^ 32
  let t := { t with nextPipeId := t.nextPipeId + 1 }
  if h : id < maxPipes then
    .ok id (t.set ⟨id, h⟩ (some { Pipe.newUninit with nReaders := 1, nWriters := 1 }))
  else .err .noMemory t

def cloneRole (id : Nat) (role : PipeRole) : PipesM Unit := fun t =>
  if h : id < maxPipes then
    match t.table ⟨id, h⟩ with
    | some p => .ok () (t.set ⟨id, h⟩ (some (p.setCount role (p.count role + 1))))
    | none => .ok () t
  else .fault t

/-- The pipe with one end less, if that leaves any. -/
def dropEnd (p : Pipe) (role : PipeRole) : Option Pipe :=
  let p := p.setCount role (p.count role - 1)
  if p.nReaders = 0 ∧ p.nWriters = 0 then none else some p

def closeRole (id : Nat) (role : PipeRole) : PipesM Unit := fun t =>
  if h : id < maxPipes then
    match t.table ⟨id, h⟩ with
    | some p => .ok () (t.set ⟨id, h⟩ (dropEnd p role))
    | none => .ok () t
  else .fault t

/-- A step of one pipe, in its slot. -/
def onPipe {α : Type} (id : Nat) (m : PipeM α) : PipesM α := fun t =>
  if h : id < maxPipes then
    match t.table ⟨id, h⟩ with
    | none => .err .badHandle t
    | some p =>
      match m p with
      | .ok a p => .ok a (t.set ⟨id, h⟩ (some p))
      | .err e p => .err e (t.set ⟨id, h⟩ (some p))
      | .fault p => .fault (t.set ⟨id, h⟩ (some p))
  else .fault t

def pipeRead (id len : Nat) : PipesM (List UInt8) := onPipe id (Pipe.read len)

def pipeWrite (id : Nat) (buf : List UInt8) : PipesM Nat := onPipe id (Pipe.write buf)

end Pipes

/-! ## One pipe -/

namespace Pipe

variable {p : Pipe} {xs : List UInt8}

/-- The bytes that were written and not yet read. -/
def Unread (p : Pipe) (xs : List UInt8) : Prop := Ring.Spans p.buf p.tail p.head xs

theorem unread_fresh (r w : Nat) : ({ newUninit with nReaders := r, nWriters := w } : Pipe).Unread [] :=
  Ring.spans_empty _ _

theorem Unread.length_lt (h : p.Unread xs) : xs.length < pipeBufSize := h.extent.room

/-- The bytes that a write finds room for. -/
def space (xs : List UInt8) : Nat := pipeBufSize - 1 - xs.length

theorem Unread.full (h : p.Unread xs) : Ring.next p.head = p.tail ↔ space xs = 0 := by
  have room := h.extent.push_room
  have lt := h.length_lt
  unfold space
  constructor
  · intro full
    by_contra free
    exact room.mpr (by omega) full
  · intro none_left
    by_contra free
    have := room.mp free
    omega

theorem Unread.empty (h : p.Unread xs) : p.head = p.tail ↔ xs = [] := by
  rw [← h.head_eq_tail, eq_comm]

theorem readLoop_spec (h : p.Unread xs) (want : Nat) :
    ∃ tail, readLoop want p = .ok (xs.take want) { p with tail } ∧
      ({ p with tail } : Pipe).Unread (xs.drop want) := by
  induction want generalizing p xs with
  | zero => exact ⟨p.tail, rfl, h⟩
  | succ want ih =>
    cases xs with
    | nil =>
      have empty : p.head = p.tail := h.empty.mpr rfl
      refine ⟨p.tail, ?_, h⟩
      simp only [readLoop, Prog.bind_apply, Prog.get, if_pos empty]
      rfl
    | cons x xs =>
      have more : p.head ≠ p.tail := fun eq => by cases h.empty.mp eq
      have popped : ({ p with tail := Ring.next p.tail } : Pipe).Unread xs := Ring.Spans.pop h
      obtain ⟨tail, run, left⟩ := ih popped
      refine ⟨tail, ?_, left⟩
      have first : p.buf p.tail = x := Ring.Spans.first h
      simp only [readLoop, Prog.bind_apply, Prog.get, if_neg more, Prog.modify, run, first]
      rfl

/-- A read takes as many bytes as there are, up to the length of the buffer. -/
theorem read_spec (h : p.Unread xs) (len : Nat) :
    ∃ tail, read len p = .ok (xs.take len) { p with tail } ∧
      ({ p with tail } : Pipe).Unread (xs.drop len) := by
  by_cases eof : p.nWriters = 0 ∧ p.head = p.tail
  · obtain rfl := h.empty.mp eof.2
    refine ⟨p.tail, ?_, by simpa using h⟩
    simp only [read, Prog.bind_apply, Prog.get, if_pos eof, List.take_nil]
    rfl
  · obtain ⟨tail, run, left⟩ := readLoop_spec h len
    refine ⟨tail, ?_, left⟩
    simp only [read, Prog.bind_apply, Prog.get, if_neg eof, run]

/-- Only a write of which nothing was taken yet fails when it finds no room. -/
theorem writeLoop_spec (h : p.Unread xs) (bs : List UInt8) (n : Nat) :
    (bs ≠ [] ∧ space xs = 0 ∧ n = 0 ∧ writeLoop bs n p = .err .notAllowed p) ∨
    ((bs = [] ∨ space xs ≠ 0 ∨ n ≠ 0) ∧ ∃ buf head,
      writeLoop bs n p = .ok (n + min bs.length (space xs)) { p with buf, head } ∧
      ({ p with buf, head } : Pipe).Unread (xs ++ bs.take (space xs))) := by
  induction bs generalizing p xs n with
  | nil => exact .inr ⟨.inl rfl, p.buf, p.head, by simp [writeLoop, Prog.pure_apply], by simpa using h⟩
  | cons b bs ih =>
    by_cases full : Ring.next p.head = p.tail
    · have none_left : space xs = 0 := h.full.mp full
      by_cases first : n = 0
      · refine .inl ⟨by simp, none_left, first, ?_⟩
        simp only [writeLoop, Prog.bind_apply, Prog.get, if_pos full, if_pos first]
        rfl
      · refine .inr ⟨.inr (.inr first), p.buf, p.head, ?_, by simpa [none_left] using h⟩
        simp only [writeLoop, Prog.bind_apply, Prog.get, if_pos full, if_neg first, none_left,
          Nat.min_zero, Nat.add_zero]
        rfl
    · have pushed : ({ p with buf := Function.update p.buf p.head b, head := Ring.next p.head } :
          Pipe).Unread (xs ++ [b]) := Ring.Spans.push h full b
      have one : space xs = space (xs ++ [b]) + 1 := by
        have lt := pushed.length_lt
        unfold space
        simp only [List.length_append, List.length_singleton] at lt ⊢
        omega
      have step : writeLoop (b :: bs) n p = writeLoop bs (n + 1)
          { p with buf := Function.update p.buf p.head b, head := Ring.next p.head } := by
        simp only [writeLoop, Prog.bind_apply, Prog.get, if_neg full, Prog.modify]
      rcases ih pushed (n + 1) with ⟨_, _, zero, _⟩ | ⟨_, buf, head, run, left⟩
      · omega
      · refine .inr ⟨.inr (.inl (by omega)), buf, head, ?_, ?_⟩
        · rw [step, run, one, List.length_cons, Nat.succ_min_succ, Nat.add_assoc, Nat.add_comm 1]
        · rw [one, List.take_succ_cons, List.append_cons]
          exact left

/-- A write with a reader takes what there is room for. -/
theorem write_spec (h : p.Unread xs) (readers : p.nReaders ≠ 0) (bs : List UInt8) :
    (bs ≠ [] ∧ space xs = 0 ∧ write bs p = .err .notAllowed p) ∨
    ((bs = [] ∨ space xs ≠ 0) ∧ ∃ buf head,
      write bs p = .ok (min bs.length (space xs)) { p with buf, head } ∧
      ({ p with buf, head } : Pipe).Unread (xs ++ bs.take (space xs))) := by
  have enter : write bs p = writeLoop bs 0 p := by
    simp only [write, Prog.bind_apply, Prog.get, if_neg readers]
  rw [enter]
  rcases writeLoop_spec h bs 0 with ⟨some_bytes, none_left, _, run⟩ | ⟨fits, taken⟩
  · exact .inl ⟨some_bytes, none_left, run⟩
  · refine .inr ⟨by simpa using fits, ?_⟩
    simpa using taken

end Pipe

/-! ## The table -/

namespace Pipes

variable {t : Pipes} {i : Fin maxPipes} {p : Pipe} {α : Type}

@[simp] theorem set_table_self (t : Pipes) (i : Fin maxPipes) (p : Option Pipe) :
    (t.set i p).table i = p := Function.update_self _ _ _

theorem set_table_of_ne {j : Fin maxPipes} (ne : j ≠ i) (p : Option Pipe) :
    (t.set i p).table j = t.table j := Function.update_of_ne ne _ _

theorem set_self (live : t.table i = some p) : t.set i (some p) = t := by
  rw [set, ← live, Function.update_eq_self]

theorem onPipe_ok {m : PipeM α} {a : α} {p' : Pipe} (live : t.table i = some p) (run : m p = .ok a p') :
    onPipe i.val m t = .ok a (t.set i (some p')) := by
  simp only [onPipe, dif_pos i.isLt, Fin.eta, live, run]

theorem onPipe_err {m : PipeM α} {e : Status} {p' : Pipe} (live : t.table i = some p)
    (run : m p = .err e p') : onPipe i.val m t = .err e (t.set i (some p')) := by
  simp only [onPipe, dif_pos i.isLt, Fin.eta, live, run]

/-- The other pipes are left alone. -/
theorem onPipe_others (id : Nat) (m : PipeM α) (t : Pipes) (other : i.val ≠ id) :
    Prog.Post (onPipe id m) t (fun _ t' => t'.table i = t.table i) (fun t' => t'.table i = t.table i) := by
  by_cases h : id < maxPipes
  · have away : ∀ p, (t.set ⟨id, h⟩ p).table i = t.table i := fun p =>
      set_table_of_ne (fun eq => other (congrArg Fin.val eq)) p
    cases live : t.table ⟨id, h⟩ with
    | none =>
      have missing : onPipe id m t = .err .badHandle t := by simp only [onPipe, dif_pos h, live]
      exact .of_err missing rfl
    | some p =>
      cases run : m p with
      | ok a p' => exact .of_ok ⟨a, _, onPipe_ok live run, away _⟩
      | err e p' => exact .of_err (onPipe_err live run) (away _)
      | fault p' =>
        have stopped : onPipe id m t = .fault (t.set ⟨id, h⟩ (some p')) := by
          simp only [onPipe, dif_pos h, live, run]
        exact .of_fault stopped (away _)
  · have outside : onPipe id m t = .fault t := by simp only [onPipe, dif_neg h]
    exact .of_fault outside rfl

theorem allocPipe_ok {t' : Pipes} {id : Nat} (new : allocPipe t = .ok id t') :
    ∃ h : id < maxPipes,
      t'.table ⟨id, h⟩ = some { Pipe.newUninit with nReaders := 1, nWriters := 1 } := by
  unfold allocPipe at new
  simp only at new
  split_ifs at new with h
  cases new
  exact ⟨h, set_table_self _ _ _⟩

end Pipes

/-! ## Traffic -/

inductive PipeIo where
  | read (id len : Nat)
  | write (id : Nat) (buf : List UInt8)

/-- The pipe table, with the bytes that went into one pipe and came out of it. -/
structure Traffic where
  pipes : Pipes
  accepted : List UInt8
  delivered : List UInt8

namespace Traffic

def onPipes {α : Type} (m : PipesM α) : Prog Traffic Status α :=
  Prog.zoom Traffic.pipes (fun pipes s => { s with pipes }) m

/-- A call on any pipe; the bytes of the pipe `watched` are recorded. -/
def perform (watched : Nat) : PipeIo → Prog Traffic Status Unit
  | .read id len => do
    let bytes ← onPipes (Pipes.pipeRead id len)
    Prog.modify fun s => if id = watched then { s with delivered := s.delivered ++ bytes } else s
  | .write id buf => do
    let n ← onPipes (Pipes.pipeWrite id buf)
    Prog.modify fun s => if id = watched then { s with accepted := s.accepted ++ buf.take n } else s

def system (watched : Nat) : Stepper Traffic Status PipeIo := ⟨perform watched, fun _ _ => True⟩

variable {s : Traffic} {id : Nat}

/-- The pipe has a reader, and holds what went in and did not come out. -/
def Flows (id : Nat) (s : Traffic) : Prop :=
  ∃ (h : id < maxPipes) (p : Pipe) (xs : List UInt8), s.pipes.table ⟨id, h⟩ = some p ∧
    p.nReaders ≠ 0 ∧ p.Unread xs ∧ s.delivered ++ xs = s.accepted

/-- Calls on other pipes change nothing here. -/
theorem Flows.others {α : Type} (h : Flows id s) {j : Nat} (other : id ≠ j) (m : PipeM α) :
    Prog.Post (onPipes (Pipes.onPipe j m)) s (fun _ s' => Flows id s') (fun s' => Flows id s') := by
  obtain ⟨lt, p, xs, live, readers, unread, flow⟩ := h
  have keep : ∀ t : Pipes, t.table ⟨id, lt⟩ = s.pipes.table ⟨id, lt⟩ → Flows id { s with pipes := t } :=
    fun t same => ⟨lt, p, xs, same.trans live, readers, unread, flow⟩
  exact (Pipes.onPipe_others (i := ⟨id, lt⟩) j m s.pipes other).zoom (fun _ t same => keep t same) keep

theorem Flows.read (h : Flows id s) (len : Nat) :
    Prog.Post (perform id (.read id len)) s (fun _ s' => Flows id s') (fun s' => Flows id s') := by
  obtain ⟨lt, p, xs, live, readers, unread, flow⟩ := h
  obtain ⟨tail, run, left⟩ := Pipe.read_spec unread len
  have read : Pipes.pipeRead id len s.pipes = _ := Pipes.onPipe_ok live run
  refine Prog.Post.bind (Q := fun bytes u => bytes = xs.take len ∧
    u = { s with pipes := s.pipes.set ⟨id, lt⟩ (some { p with tail }) })
    (E := fun s' => Flows id s') (.of_ok ⟨_, _, by simp only [onPipes, Prog.zoom, read], rfl, rfl⟩) ?_
  rintro _ _ ⟨rfl, rfl⟩
  simp only [if_true]
  refine .modify ⟨lt, _, xs.drop len, Pipes.set_table_self _ _ _, readers, left, ?_⟩
  rw [← flow, List.append_assoc, List.take_append_drop]

theorem Flows.write (h : Flows id s) (buf : List UInt8) :
    Prog.Post (perform id (.write id buf)) s (fun _ s' => Flows id s') (fun s' => Flows id s') := by
  obtain ⟨lt, p, xs, live, readers, unread, flow⟩ := h
  rcases Pipe.write_spec unread readers buf with ⟨_, _, run⟩ | ⟨_, cells, head, run, left⟩
  · have write : Pipes.pipeWrite id buf s.pipes = _ := Pipes.onPipe_err live run
    rw [Pipes.set_self live] at write
    refine Prog.Post.bind (Prog.Post.zoom (.of_err write rfl) (fun _ _ h => h) ?_) fun _ _ h => h
    rintro _ rfl
    exact ⟨lt, p, xs, live, readers, unread, flow⟩
  · have write : Pipes.pipeWrite id buf s.pipes = _ := Pipes.onPipe_ok live run
    refine Prog.Post.bind (Q := fun n u => n = min buf.length (Pipe.space xs) ∧
      u = { s with pipes := s.pipes.set ⟨id, lt⟩ (some { p with buf := cells, head }) })
      (E := fun s' => Flows id s') (.of_ok ⟨_, _, by simp only [onPipes, Prog.zoom, write], rfl, rfl⟩) ?_
    rintro _ _ ⟨rfl, rfl⟩
    simp only [if_true]
    refine .modify ⟨lt, _, _, Pipes.set_table_self _ _ _, readers, left, ?_⟩
    simp only
    rw [← List.append_assoc, flow, Nat.min_comm, ← List.take_take, List.take_length]

theorem Flows.step (h : Flows id s) (op : PipeIo) :
    Prog.Post (perform id op) s (fun _ s' => Flows id s') (fun s' => Flows id s') := by
  cases op with
  | read j len =>
    by_cases here : j = id
    · subst here
      exact h.read len
    · refine Prog.Post.bind (h.others (Ne.symm here) _) fun bytes s' kept => ?_
      simp only [if_neg here]
      exact .modify kept
  | write j buf =>
    by_cases here : j = id
    · subst here
      exact h.write buf
    · refine Prog.Post.bind (h.others (Ne.symm here) _) fun n s' kept => ?_
      simp only [if_neg here]
      exact .modify kept

theorem flows_run {t t₁ : Pipes} (new : Pipes.allocPipe t = .ok id t₁)
    (run : (system id).Run (fun _ _ => True) ⟨t₁, [], []⟩ s) : Flows id s := by
  obtain ⟨lt, live⟩ := Pipes.allocPipe_ok new
  refine run.invariant ⟨lt, _, [], live, by decide, Pipe.unread_fresh 1 1, rfl⟩ ?_
  exact fun op s s' flows _ step => step.ran.state_eq ▸ (flows.step op).state

end Traffic

/-- Whatever calls are made on a new pipe, readers get a prefix of what writers have put in; the rest
waits, at most 4095 bytes of it. -/
theorem pipe_stream {t t₁ : Pipes} {id : Nat} (new : Pipes.allocPipe t = .ok id t₁) {s : Traffic}
    (run : (Traffic.system id).Run (fun _ _ => True) ⟨t₁, [], []⟩ s) :
    ∃ unread, s.delivered ++ unread = s.accepted ∧ unread.length ≤ 4095 ∧
      (∀ buf, (buf ≠ [] ∧ unread.length = 4095 ∧
          Pipes.pipeWrite id buf s.pipes = .err .notAllowed s.pipes) ∨
        ((buf = [] ∨ unread.length < 4095) ∧ ∃ t',
          Pipes.pipeWrite id buf s.pipes = .ok (min buf.length (4095 - unread.length)) t')) ∧
      ∀ len, ∃ t', Pipes.pipeRead id len s.pipes = .ok (unread.take len) t' := by
  obtain ⟨lt, p, xs, live, readers, unread, flow⟩ := Traffic.flows_run new run
  have bound : xs.length < 4096 := unread.length_lt
  have space : Pipe.space xs = 4095 - xs.length := rfl
  refine ⟨xs, flow, by omega, fun buf => ?_, fun len => ?_⟩
  · rcases Pipe.write_spec unread readers buf with ⟨bytes, none_left, run⟩ | ⟨fits, cells, head, run, _⟩
    · have write := Pipes.onPipe_err live run
      rw [Pipes.set_self live] at write
      exact .inl ⟨bytes, by omega, write⟩
    · have write := Pipes.onPipe_ok live run
      rw [space] at write
      exact .inr ⟨fits.imp_right fun room => by omega, _, write⟩
  · obtain ⟨tail, run, _⟩ := Pipe.read_spec unread len
    exact ⟨_, Pipes.onPipe_ok live run⟩

/-- Three bytes in, two out. -/
def threeBytes : Traffic :=
  (Traffic.system 0).after ⟨Pipes.init.allocPipe.state, [], []⟩ [.write 0 [1, 2, 3], .read 0 2]

theorem pipe_stream_three : threeBytes.delivered = [1, 2] ∧ ∃ unread,
    threeBytes.delivered ++ unread = threeBytes.accepted ∧ unread.length ≤ 4095 ∧
      (∀ buf, (buf ≠ [] ∧ unread.length = 4095 ∧
          Pipes.pipeWrite 0 buf threeBytes.pipes = .err .notAllowed threeBytes.pipes) ∨
        ((buf = [] ∨ unread.length < 4095) ∧ ∃ t',
          Pipes.pipeWrite 0 buf threeBytes.pipes = .ok (min buf.length (4095 - unread.length)) t')) ∧
      ∀ len, ∃ t', Pipes.pipeRead 0 len threeBytes.pipes = .ok (unread.take len) t' :=
  ⟨by decide +kernel, pipe_stream (t := .init) rfl
    (Stepper.Run.follow .start ⟨trivial, trivial, by decide +kernel, trivial, trivial, by decide +kernel, trivial⟩)⟩

end CapsuleOS
