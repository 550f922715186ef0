import CapsuleOS.Fileagent.TreeRuns

/-!
# The contents of files

A file as an array of bytes that is as long as the file. `Shows` relates the arrays of the file system to
it: behind the end of the file there are zeros, so that a write there leaves a gap of zeros. A node that is
not in use has only zeros (`Blank`), also one that was removed; this holds in every state that the calls
reach, and a new file starts from it.
-/
namespace CapsuleOS.Fileagent

open Lib

/-- The calls that change something. -/
inductive RamOp where
  | tree (op : FsOp)
  | write (idx : Int) (data : List UInt8) (offset : Nat)

namespace RamOp

def perform : RamOp → FsM Unit
  | .tree op => op.perform
  | .write idx data offset => do let _ ← Fs.write idx data offset

def system : Stepper Fs Status RamOp := ⟨perform, fun _ _ => True⟩

end RamOp

/-! ## Nodes that are not in use -/

def Blank (s : Fs) : Prop := ∀ i, s.ntypes i = none → ∀ k, s.datas i k = 0

/-- What creation does to contents: none is changed, and a new node has the size 0. -/
structure Creates (s s' : Fs) : Prop where
  datas : s'.datas = s.datas
  live : ∀ i, s.ntypes i ≠ none → s'.ntypes i ≠ none
  sizes : ∀ i, s'.sizes i = s.sizes i ∨ s'.sizes i = 0
  new : ∀ i, s.ntypes i = none → s'.ntypes i ≠ none → s'.sizes i = 0

instance : Std.Refl Creates := ⟨fun _ => ⟨rfl, fun _ => id, fun _ => .inl rfl, fun _ free made => absurd free made⟩⟩

instance : IsTrans Fs Creates where
  trans s s' s'' h h' := by
    refine ⟨h'.datas.trans h.datas, fun i live => h'.live i (h.live i live), fun i => ?_, fun i free made => ?_⟩
    · rcases h'.sizes i with same | zero
      · rw [same]
        exact h.sizes i
      · exact .inr zero
    · by_cases first : s'.ntypes i = none
      · exact h'.new i first made
      · rcases h'.sizes i with same | zero
        · exact same.trans (h.new i free first)
        · exact zero

section Frames

variable {s s' : Fs} {i p c : Idx} {prev : Option Idx}

theorem within_look {α : Type} {R : Fs → Fs → Prop} [Std.Refl R] (f : Fs → Option α) :
    Prog.Within R (look f) := by
  intro s
  unfold look
  cases f s <;> exact Std.Refl.refl s

theorem creates_of_same (datas : s'.datas = s.datas) (ntypes : s'.ntypes = s.ntypes)
    (sizes : s'.sizes = s.sizes) : Creates s s' :=
  ⟨datas, fun _ live => ntypes ▸ live, fun i => .inl (congrFun sizes i),
    fun _ free made => absurd (ntypes ▸ free) made⟩

theorem creates_fill (idx : Idx) (name : List UInt8) (ntype : NodeType) (parent : Idx) :
    Creates s (s.fill idx name ntype parent) := by
  have other : ∀ i ≠ idx, (s.fill idx name ntype parent).ntypes i = s.ntypes i := fun i ne =>
    Function.update_of_ne ne _ _
  have zero : (s.fill idx name ntype parent).sizes idx = 0 := Function.update_self _ _ _
  refine ⟨rfl, fun i live => ?_, fun i => ?_, fun i free made => ?_⟩
  · by_cases here : i = idx
    · subst here
      simp [Fs.fill]
    · rwa [other i here]
  · by_cases here : i = idx
    · exact .inr (here ▸ zero)
    · exact .inl (Function.update_of_ne here _ _)
  · by_cases here : i = idx
    · exact here ▸ zero
    · exact absurd ((other i here).trans free) made

theorem within_allocIdx : Prog.Within Creates Fs.allocIdx := by
  intro s
  unfold Fs.allocIdx
  split_ifs
  · exact creates_of_same rfl rfl rfl
  · cases Fs.firstFree s.ntypes <;> exact creates_of_same rfl rfl rfl

theorem within_append (parent idx : Idx) : Prog.Within Creates (Fs.append parent idx) := by
  refine Prog.Within.bind .get fun s => ?_
  cases s.firstChild parent with
  | none => exact .modify fun s => creates_of_same rfl rfl rfl
  | some first => exact (within_look _).bind fun last => .modify fun s => creates_of_same rfl rfl rfl

theorem within_setNode (name : List UInt8) (ntype : NodeType) (parent : Idx) :
    Prog.Within Creates (Fs.setNode name ntype parent) := by
  refine within_allocIdx.bind fun idx => ?_
  cases idx with
  | none => exact .pure none
  | some idx =>
    refine Prog.Within.bind (.modify fun s => creates_fill idx name ntype parent) fun _ => ?_
    refine (within_append parent idx).bind fun _ => ?_
    exact Prog.Within.bind (.modify fun s => creates_of_same rfl rfl rfl) fun _ => .pure (some idx)

theorem within_create (ntype : NodeType) (parent : Int) (name : List UInt8) :
    Prog.Within Creates (Fs.create ntype parent name) := by
  unfold Fs.create
  cases index? parent with
  | none => exact .pure none
  | some p =>
    refine Prog.Within.bind .get fun s => ?_
    split_ifs
    · exact .pure none
    · refine (within_look _).bind fun found => ?_
      cases found with
      | some c => exact .pure none
      | none => exact within_setNode name ntype p

theorem within_mkdirLoop (cs : List (List UInt8)) (cur : Idx) :
    Prog.Within Creates (Fs.mkdirLoop cs cur) := by
  induction cs generalizing cur with
  | nil => exact .pure ()
  | cons c cs ih =>
    refine (within_look _).bind fun found => ?_
    cases found with
    | some found =>
      dsimp only
      split_ifs
      · exact .throw _
      · refine Prog.Within.bind .get fun s => ?_
        split_ifs
        · exact .throw _
        · exact ih found
    | none =>
      refine (within_create .directory cur.val c).bind fun new => ?_
      cases new with
      | some new => exact ih new
      | none => exact .throw _

theorem within_mkdirPath (path : List UInt8) : Prog.Within Creates (Fs.mkdirPath path) := by
  unfold Fs.mkdirPath
  split_ifs
  · exact .pure ()
  · refine Prog.Within.bind .get fun s => ?_
    cases s.root with
    | none => exact .throw _
    | some root => exact within_mkdirLoop _ root

theorem within_createFilePath (path : List UInt8) : Prog.Within Creates (Fs.createFilePath path) := by
  refine (within_look _).bind fun target => ?_
  cases target with
  | none => exact .pure none
  | some target => exact within_create .file target.1 target.2

/-- What removal does to contents: a node that is taken away is cleared, and none is made. -/
structure Removes (s s' : Fs) : Prop where
  datas : ∀ i, s'.datas i = s.datas i ∨ ∀ k, s'.datas i k = 0
  free : ∀ i, s.ntypes i = none → s'.ntypes i = none
  cleared : ∀ i, s'.ntypes i = none → s.ntypes i = none ∨ ∀ k, s'.datas i k = 0

theorem removes_refl (s : Fs) : Removes s s := ⟨fun _ => .inl rfl, fun _ => id, fun _ => .inl⟩

theorem unlink_datas : (s.unlink p c prev).datas = Function.update s.datas c fun _ => 0 := by
  cases prev <;> rfl

theorem removes_unlink : Removes s (s.unlink p c prev) := by
  have gone : (s.unlink p c prev).ntypes c = none := by rw [unlink_ntypes, Function.update_self]
  have zero : ∀ k, (s.unlink p c prev).datas c k = 0 := fun k => by rw [unlink_datas, Function.update_self]
  have type_eq : ∀ i ≠ c, (s.unlink p c prev).ntypes i = s.ntypes i := fun i ne => by
    rw [unlink_ntypes, Function.update_of_ne ne]
  refine ⟨fun i => ?_, fun i free => ?_, fun i free => ?_⟩ <;> by_cases here : i = c
  · exact .inr (here ▸ zero)
  · exact .inl (by rw [unlink_datas, Function.update_of_ne here])
  · exact here ▸ gone
  · rwa [type_eq i here]
  · exact .inr (here ▸ zero)
  · exact .inl ((type_eq i here).symm.trans free)

theorem within_unlinkLoop (rounds : Nat) (prev l : Option Idx) :
    Prog.Within Removes (Fs.unlinkLoop p c rounds prev l) := by
  induction rounds generalizing prev l with
  | zero => cases l <;> exact fun s => removes_refl s
  | succ rounds ih =>
    cases l with
    | none => exact fun s => removes_refl s
    | some cur =>
      intro s
      unfold Fs.unlinkLoop
      by_cases here : cur = c
      · rw [if_pos here]
        exact removes_unlink
      · rw [if_neg here]
        exact ih (some cur) (s.nextSibling cur) s

theorem within_remove (parent child : Int) : Prog.Within Removes (Fs.remove parent child) := by
  intro s
  unfold Fs.remove
  cases index? parent with
  | none => exact removes_refl s
  | some p =>
    cases index? child with
    | none => exact removes_refl s
    | some c =>
      simp only [Prog.bind_apply, Prog.get]
      split_ifs
      · exact removes_refl s
      · exact removes_refl s
      · exact within_unlinkLoop maxFiles none (s.firstChild p) s

theorem blank_of_creates (blank : Blank s) (h : Creates s s') : Blank s' := by
  intro i free k
  rw [h.datas]
  exact blank i (by_contra fun live => h.live i live free) k

theorem blank_of_removes (blank : Blank s) (h : Removes s s') : Blank s' := by
  intro i free k
  rcases h.datas i with same | zero
  · rcases h.cleared i free with before | zero
    · rw [same]
      exact blank i before k
    · exact zero k
  · exact zero k

/-- Every call makes nodes, or it removes some. -/
theorem perform_creates_or_removes {op : FsOp} (step : FsOp.system.Steps op s s') :
    Creates s s' ∨ Removes s s' := by
  have ran : (op.perform s).Ends s' := step.ran
  cases op with
  | createFile parent name => exact .inl ((Prog.map_ends ran).state_eq ▸ within_create _ _ _ s)
  | createDir parent name => exact .inl ((Prog.map_ends ran).state_eq ▸ within_create _ _ _ s)
  | mkdirPath path => exact .inl (ran.state_eq ▸ within_mkdirPath path s)
  | createFilePath path => exact .inl ((Prog.map_ends ran).state_eq ▸ within_createFilePath path s)
  | remove parent child => exact .inr ((Prog.map_ends ran).state_eq ▸ within_remove parent child s)

/-- The state after a write into a file. -/
def Fs.written (s : Fs) (i : Idx) (data : List UInt8) (offset : Nat) : Fs :=
  let n := min data.length (fileSize - offset)
  { s with
    datas := Function.update s.datas i ((s.datas i).store offset (data.take n))
    sizes := Function.update s.sizes i (max (s.sizes i) (offset + n)) }

/-- A write into a file, or none, or an offset that is out of range. -/
theorem write_cases (s : Fs) (idx : Int) (data : List UInt8) (offset : Nat) :
    ((∀ i, index? idx = some i → s.ntypes i ≠ some .file) ∧ Fs.write idx data offset s = .ok none s) ∨
      (∃ i, index? idx = some i ∧ s.ntypes i = some .file ∧ offset ≤ fileSize ∧
        Fs.write idx data offset s =
          .ok (some (min data.length (fileSize - offset))) (s.written i data offset)) ∨
      fileSize < offset ∧ Fs.write idx data offset s = .fault s := by
  cases index : index? idx with
  | none => exact .inl ⟨fun _ some => (Option.some_ne_none _ some.symm).elim, by simp only [Fs.write, index]⟩
  | some i =>
    by_cases file : s.ntypes i = some .file
    · by_cases far : offset > fileSize
      · exact .inr (.inr ⟨far, by
          simp only [Fs.write, index, file, ne_eq, not_true_eq_false, if_false, far, if_true]⟩)
      · refine .inr (.inl ⟨i, rfl, file, not_lt.mp far, ?_⟩)
        simp only [Fs.write, index, file, ne_eq, not_true_eq_false, if_false, far]
        rfl
    · refine .inl ⟨fun j same => ?_, by simp only [Fs.write, index, ne_eq, file, not_false_eq_true, if_true]⟩
      exact Option.some.inj same ▸ file

/-- What a call of `write` can do to the state. -/
theorem RamOp.write_ends {idx : Int} {data : List UInt8} {offset : Nat}
    (step : RamOp.system.Steps (.write idx data offset) s s') :
    s' = s ∨ ∃ i, s.ntypes i = some .file ∧ s' = s.written i data offset := by
  have ran : (Fs.write idx data offset s).Ends s' := Prog.map_ends step.ran
  rcases write_cases s idx data offset with ⟨_, out⟩ | ⟨i, _, file, _, out⟩ | ⟨_, out⟩
  · exact .inl (out ▸ ran).state_eq.symm
  · exact .inr ⟨i, file, (out ▸ ran).state_eq.symm⟩
  · exact .inl (out ▸ ran).state_eq.symm

theorem blank_written (blank : Blank s) (file : s.ntypes i = some .file) (data : List UInt8) (offset : Nat) :
    Blank (s.written i data offset) := by
  intro j free k
  have ne : j ≠ i := by
    rintro rfl
    exact absurd (file.symm.trans free) (Option.some_ne_none _)
  have same : (s.written i data offset).datas j = s.datas j := Function.update_of_ne ne _ _
  rw [same]
  exact blank j free k

/-- Also a node that was removed has only zeros. -/
theorem blank_run (run : RamOp.system.Run (fun _ _ => True) .start s) : Blank s := by
  refine run.invariant (fun i _ k => rfl) fun op u u' blank _ step => ?_
  cases op with
  | tree op =>
    rcases perform_creates_or_removes ⟨trivial, step.ran⟩ with creates | removes
    · exact blank_of_creates blank creates
    · exact blank_of_removes blank removes
  | write idx data offset =>
    rcases RamOp.write_ends step with rfl | ⟨i, file, rfl⟩
    · exact blank
    · exact blank_written blank file data offset

end Frames

/-! ## Files as arrays -/

/-- A place up to the end of the largest file. -/
abbrev Offset := {n : Nat // n ≤ fileSize}

/-- The bytes of a file. -/
structure Content where
  bytes : List UInt8
  fits : bytes.length ≤ fileSize

namespace Content

def empty : Content := ⟨[], Nat.zero_le _⟩

/-- How many of the bytes there is room for. -/
def accepted (data : List UInt8) (offset : Offset) : Nat := min data.length (fileSize - offset)

/-- The bytes with zeros behind them, as far as the write goes. -/
def padded (b : Content) (data : List UInt8) (offset : Offset) : List UInt8 :=
  b.bytes ++ List.replicate (offset + accepted data offset - b.bytes.length) 0

theorem padded_length (b : Content) (data : List UInt8) (offset : Offset) :
    (b.padded data offset).length = max b.bytes.length (offset + accepted data offset) := by
  simp only [padded, List.length_append, List.length_replicate]
  omega

theorem room (b : Content) (data : List UInt8) (offset : Offset) :
    (offset : Nat) + (data.take (accepted data offset)).length ≤ (b.padded data offset).length := by
  rw [padded_length, List.length_take]
  unfold accepted
  omega

/-- The bytes that there is room for replace the old ones, and zeros fill a gap. -/
def write (b : Content) (data : List UInt8) (offset : Offset) : Content where
  bytes := splice (b.padded data offset) offset (data.take (accepted data offset))
  fits := by
    have fits := b.fits
    have le := offset.property
    rw [splice_length (b.room data offset), padded_length]
    unfold accepted
    omega

def read (b : Content) (len offset : Nat) : List UInt8 := (b.bytes.drop offset).take len

theorem write_length (b : Content) (data : List UInt8) (offset : Offset) :
    (b.write data offset).bytes.length = max b.bytes.length (offset + accepted data offset) :=
  (splice_length (b.room data offset)).trans (b.padded_length data offset)

theorem padded_getElem? (b : Content) (data : List UInt8) (offset : Offset) (k : Nat) :
    ((b.padded data offset)[k]?).getD 0 = (b.bytes[k]?).getD 0 := by
  unfold padded
  by_cases old : k < b.bytes.length
  · rw [List.getElem?_append_left old]
  · rw [List.getElem?_append_right (by omega), List.getElem?_eq_none (by omega : b.bytes.length ≤ k),
      List.getElem?_replicate]
    split_ifs <;> rfl

theorem write_getElem? (b : Content) (data : List UInt8) (offset : Offset) (k : Nat) :
    ((b.write data offset).bytes[k]?).getD 0 =
      if (offset : Nat) ≤ k ∧ k < offset + accepted data offset then (data[k - offset]?).getD 0
      else (b.bytes[k]?).getD 0 := by
  have len : (data.take (accepted data offset)).length = accepted data offset := by
    rw [List.length_take]
    unfold accepted
    omega
  simp only [write]
  rw [splice_getElem? (b.room data offset), len]
  split_ifs with inside
  · rw [List.getElem?_take_of_lt (by omega)]
  · exact b.padded_getElem? data offset k

end Content

inductive IoOp where
  | write (idx : Int) (data : List UInt8) (offset : Offset)
  | read (idx : Int) (len offset : Nat)

inductive Reply where
  | wrote (n : Option Nat)
  | got (bytes : Option (List UInt8))
  deriving DecidableEq

namespace IoOp

def idx : IoOp → Int
  | .write idx _ _ => idx
  | .read idx _ _ => idx

def Writes (op : IoOp) (j : Idx) : Prop := ∃ data offset, op = .write j.val data offset

def perform : IoOp → FsM Reply
  | .write idx data offset => do return .wrote (← Fs.write idx data offset)
  | .read idx len offset => do
    let s ← Prog.get
    return .got (s.read idx len offset)

def performAll : List IoOp → FsM (List Reply)
  | [] => pure []
  | op :: ops => do
    let reply ← op.perform
    return reply :: (← performAll ops)

end IoOp

def Content.answer (b : Content) : IoOp → Reply × Content
  | .write _ data offset => (.wrote (some (accepted data offset)), b.write data offset)
  | .read _ len offset => (.got (some (b.read len offset)), b)

/-- The replies to the calls on the node are those of the array, which ends as `b'`. -/
inductive Behaves (i : Idx) : Content → List IoOp → List Reply → Content → Prop where
  | done (b : Content) : Behaves i b [] [] b
  | mine {b b' : Content} {op : IoOp} {ops : List IoOp} {replies : List Reply} (here : op.idx = i.val)
      (rest : Behaves i (b.answer op).2 ops replies b') :
      Behaves i b (op :: ops) ((b.answer op).1 :: replies) b'
  | other {b b' : Content} {op : IoOp} {ops : List IoOp} {reply : Reply} {replies : List Reply}
      (elsewhere : op.idx ≠ i.val) (rest : Behaves i b ops replies b') :
      Behaves i b (op :: ops) (reply :: replies) b'

/-- The node is a file with the bytes of the array, and zeros behind them. -/
structure Shows (s : Fs) (i : Idx) (b : Content) : Prop where
  file : s.ntypes i = some .file
  size : s.sizes i = b.bytes.length
  data : ∀ k < fileSize, s.datas i k = (b.bytes[k]?).getD 0

section Files

variable {s s' : Fs} {i j : Idx} {b : Content}

theorem Shows.load (h : Shows s i b) {offset n : Nat} (le : offset + n ≤ b.bytes.length) :
    (s.datas i).load offset n = (b.bytes.drop offset).take n := by
  have fits := b.fits
  apply List.ext_getElem
  · simp only [Mem.load_length, List.length_take, List.length_drop]
    omega
  · intro k lt lt'
    rw [Mem.load_length] at lt
    rw [Mem.load_getElem, h.data _ (by omega), List.getElem_take, List.getElem_drop,
      List.getElem?_eq_getElem (by omega)]
    rfl

theorem Shows.read (h : Shows s i b) (len offset : Nat) :
    s.read i.val len offset = some (b.read len offset) := by
  have live : s.ntypes i ≠ none := h.file ▸ Option.some_ne_none _
  simp only [Fs.read, index?_val, Option.bind_eq_bind, Option.bind_some, live, if_false, h.size]
  split_ifs with behind
  · rw [Content.read, List.drop_eq_nil_of_le behind, List.take_nil]
  · rw [h.load (by omega), Content.read]
    congr 1
    rw [List.take_eq_take_iff, List.length_drop]
    omega

/-- A write keeps every other node. -/
theorem written_frame (data : List UInt8) (offset : Nat) (ne : j ≠ i) :
    (s.written i data offset).datas j = s.datas j ∧ (s.written i data offset).sizes j = s.sizes j :=
  ⟨Function.update_of_ne ne _ _, Function.update_of_ne ne _ _⟩

theorem Shows.write (h : Shows s i b) (data : List UInt8) (offset : Offset) :
    Shows (s.written i data offset) i (b.write data offset) := by
  refine ⟨h.file, ?_, fun k lt => ?_⟩
  · have size : (s.written i data offset).sizes i =
        max (s.sizes i) (offset + Content.accepted data offset) := Function.update_self _ _ _
    rw [size, h.size, b.write_length]
  · have stored : (s.written i data offset).datas i =
        (s.datas i).store offset (data.take (Content.accepted data offset)) := Function.update_self _ _ _
    rw [stored, b.write_getElem?, Mem.store, h.data k lt]
    by_cases reached : (offset : Nat) ≤ k
    · rw [if_pos reached]
      by_cases inside : k < offset + Content.accepted data offset
      · rw [if_pos ⟨reached, inside⟩, List.getElem?_take_of_lt (by omega),
          List.getElem?_eq_getElem (by unfold Content.accepted at inside; omega)]
        rfl
      · rw [if_neg (fun both => inside both.2), List.getElem?_eq_none (by rw [List.length_take]; omega)]
        rfl
    · rw [if_neg reached, if_neg (fun both => reached both.1)]

/-- A write into another node. -/
theorem Shows.elsewhere (h : Shows s i b) (ne : i ≠ j) (data : List UInt8) (offset : Nat) :
    Shows (s.written j data offset) i b := by
  have frame := written_frame (s := s) data offset ne
  exact ⟨h.file, frame.2.trans h.size, fun k lt => (congrFun frame.1 k).trans (h.data k lt)⟩

/-- A node that is made on an index that is not in use is the empty array. -/
theorem shows_empty (blank : Blank s) (free : s.ntypes i = none) (file : s'.ntypes i = some .file)
    (h : Creates s s') : Shows s' i .empty := by
  refine ⟨file, h.new i free (by simp [file]), fun k _ => ?_⟩
  rw [h.datas, blank i free k]
  rfl

/-- What the calls do to nodes that they do not write. -/
structure Untouched (op : IoOp) (s s' : Fs) : Prop where
  types : s'.ntypes = s.ntypes
  others : ∀ j, ¬op.Writes j → s'.datas j = s.datas j ∧ s'.sizes j = s.sizes j

/-- One call: it returns, it answers for the node as the array does, and other nodes stay. -/
theorem Shows.step (h : Shows s i b) (op : IoOp) : ∃ reply s', op.perform s = .ok reply s' ∧
    Untouched op s s' ∧
      (op.idx = i.val → reply = (b.answer op).1 ∧ Shows s' i (b.answer op).2) ∧
        (op.idx ≠ i.val → Shows s' i b) := by
  cases op with
  | read idx len offset =>
    refine ⟨_, s, rfl, ⟨rfl, fun _ _ => ⟨rfl, rfl⟩⟩, fun here => ⟨?_, h⟩, fun _ => h⟩
    have here : idx = i.val := here
    rw [here, h.read]
    rfl
  | write idx data offset =>
    rcases write_cases s idx data offset with
      ⟨no_file, out⟩ | ⟨k, index, file, _, out⟩ | ⟨far, _⟩
    · refine ⟨_, s, by rw [IoOp.perform, Prog.bind_ok out]; rfl, ⟨rfl, fun _ _ => ⟨rfl, rfl⟩⟩,
        fun here => ?_, fun _ => h⟩
      have here : idx = i.val := here
      exact absurd h.file (no_file i (here ▸ index?_val i))
    · obtain rfl := index?_eq index
      refine ⟨_, s.written k data offset, by rw [IoOp.perform, Prog.bind_ok out]; rfl,
        ⟨rfl, fun j away => written_frame _ _ fun eq => away ⟨data, offset, eq ▸ rfl⟩⟩,
        fun here => ?_, fun elsewhere => ?_⟩
      · obtain rfl : k = i := Fin.ext (Int.natCast_inj.mp here)
        exact ⟨rfl, h.write data offset⟩
      · have ne : i ≠ k := by
          rintro rfl
          exact elsewhere rfl
        exact h.elsewhere ne data offset
    · exact absurd offset.property (not_le.mpr far)

/-- Any calls, one after the other. -/
theorem Shows.performAll (h : Shows s i b) (calls : List IoOp) : ∃ replies s' b',
    IoOp.performAll calls s = .ok replies s' ∧ Behaves i b calls replies b' ∧ Shows s' i b' ∧
      s'.ntypes = s.ntypes ∧ ∀ j, (∀ op ∈ calls, ¬op.Writes j) →
        s'.datas j = s.datas j ∧ s'.sizes j = s.sizes j := by
  induction calls generalizing s b with
  | nil => exact ⟨[], s, b, rfl, .done b, h, rfl, fun _ _ => ⟨rfl, rfl⟩⟩
  | cons op ops ih =>
    obtain ⟨reply, u, first, untouched, mine, elsewhere⟩ := h.step op
    have next : ∃ b₁, Shows u i b₁ ∧ ∀ replies b', Behaves i b₁ ops replies b' →
        Behaves i b (op :: ops) (reply :: replies) b' := by
      by_cases here : op.idx = i.val
      · obtain ⟨rfl, shown⟩ := mine here
        exact ⟨_, shown, fun _ _ rest => .mine here rest⟩
      · exact ⟨b, elsewhere here, fun _ _ rest => .other here rest⟩
    obtain ⟨b₁, shown, behaves⟩ := next
    obtain ⟨replies, s', b', rest, later, shown', types, others⟩ := ih shown
    refine ⟨reply :: replies, s', b', ?_, behaves _ _ later, shown', types.trans untouched.types,
      fun j away => ?_⟩
    · rw [IoOp.performAll, Prog.bind_ok first, Prog.bind_ok rest]
      rfl
    · obtain ⟨here, below⟩ := List.forall_mem_cons.mp away
      exact ⟨(others j below).1.trans (untouched.others j here).1,
        (others j below).2.trans (untouched.others j here).2⟩

/-- A file that a call makes on an index that is not in use behaves as an array of bytes, at first the empty
one, under every sequence of reads and writes, and these change no contents or size of a node that none of
them writes. -/
theorem files_refine {s₀ s : Fs} (run : RamOp.system.Run (fun _ _ => True) .start s₀) {op : FsOp}
    (made : FsOp.system.Steps op s₀ s) {i : Idx} (free : s₀.ntypes i = none)
    (file : s.ntypes i = some .file) (calls : List IoOp) :
    ∃ replies s' b, IoOp.performAll calls s = .ok replies s' ∧ Behaves i .empty calls replies b ∧
      Shows s' i b ∧ ∀ j, (∀ op ∈ calls, ¬op.Writes j) →
        s'.datas j = s.datas j ∧ s'.sizes j = s.sizes j := by
  have shown : Shows s i .empty := by
    rcases perform_creates_or_removes made with creates | removes
    · exact shows_empty (blank_run run) free file creates
    · have still := removes.free i free
      rw [file] at still
      cases still
  obtain ⟨replies, s', b, out, behaves, shown', _, others⟩ := shown.performAll calls
  exact ⟨replies, s', b, out, behaves, shown', others⟩

/-- A file with three bytes, the other nodes, and then the file is removed. -/
def emptying : List RamOp :=
  [.tree (.createFile 0 [120]), .write 1 [7, 7, 7] 0,
    .tree (.mkdirPath ((List.replicate 13 [97, slash]).flatten ++ [97])), .tree (.remove 0 1)]

def emptied : Fs := RamOp.system.after .start emptying

/-- The next file gets its index. -/
def again : Fs := (FsOp.system.exec (.createFile 0 [121]) emptied).state

/-- Two bytes in front of the one that is written. -/
def gapped : List IoOp := [.write 1 [5] ⟨2, by decide⟩, .read 1 8 0]

theorem emptied_reached : RamOp.system.Run (fun _ _ => True) .start emptied := by
  have follows : RamOp.system.Follows (fun _ _ => True) .start emptying :=
    ⟨trivial, trivial, by decide +kernel, trivial, trivial, by decide +kernel, trivial, trivial,
      by decide +kernel, trivial, trivial, by decide +kernel, trivial⟩
  exact Stepper.Run.start.follow follows

theorem again_made : FsOp.system.Steps (.createFile 0 [121]) emptied again := by
  have returns : (FsOp.system.exec (.createFile 0 [121]) emptied).faulted = false := by decide +kernel
  exact ⟨trivial, Outcome.ends_state returns⟩

theorem files_refine_again : ∃ replies s' b, IoOp.performAll gapped again = .ok replies s' ∧
    Behaves ⟨1, by decide⟩ .empty gapped replies b ∧ Shows s' ⟨1, by decide⟩ b ∧
      ∀ j, (∀ op ∈ gapped, ¬op.Writes j) → s'.datas j = again.datas j ∧ s'.sizes j = again.sizes j :=
  files_refine emptied_reached again_made (by decide +kernel) (by decide +kernel) gapped

example : (IoOp.performAll gapped again).value? =
    some [.wrote (some 1), .got (some [0, 0, 5])] := by decide +kernel

end Files

end CapsuleOS.Fileagent
