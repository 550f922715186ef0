import CapsuleOS.Libc.Requests

/-!
# Serving requests

While new nodes are made at free indices the nodes are a tree, so that every search ends, and no file is
longer than its array. What is left for a request to go wrong at is then `Vfs.Safe`.
-/
namespace CapsuleOS.Fileagent

open Lib

/-- The nodes are a tree, and no file is longer than its array. -/
structure Fs.Intact (s : Fs) : Prop where
  tree : s.IsTree
  bounded : ∀ i, s.sizes i ≤ fileSize

section Files

variable {s : Fs} {taken : List Idx}

theorem Fs.Intact.of_takes {s' : Fs} (h : s.Intact) (tree : s'.IsTree) (takes : Takes taken s s') :
    s'.Intact := ⟨tree, fun i => (takes.sizes i).trans (h.bounded i)⟩

/-- A call that makes or removes nodes. -/
theorem Fs.Intact.total {α : Type} {m : FsM α} (h : s.Intact)
    (total : Prog.Total m s (fun _ s' => s'.IsTree) (fun s' => s'.IsTree))
    (takes : Prog.Post m s (fun _ s' => Takes taken s s') (fun s' => Takes taken s s')) :
    Prog.Total m s (fun _ s' => s'.Intact) (fun s' => s'.Intact) :=
  (total.and_post takes).mono (fun _ _ both => h.of_takes both.1 both.2) fun _ both => h.of_takes both.1 both.2

theorem Kept.isTree {α : Type} {m : FsM α} (total : Prog.Total m s (fun _ s' => Kept s s') (fun s' => Kept s s')) :
    Prog.Total m s (fun _ s' => s'.IsTree) (fun s' => s'.IsTree) :=
  total.mono (fun _ _ kept => kept.1) fun _ kept => kept.1

theorem Fs.Intact.nodeFor (h : s.Intact) {path : List UInt8} {flags : Nat}
    (free : s.resolve path = some none → Vfs.wantsCreate flags → (FsOp.createFilePath path).Meets s) :
    Prog.Total (Vfs.nodeFor path flags) s (fun _ s' => s'.Intact) (fun s' => s'.Intact) := by
  refine h.total ?_ Vfs.nodeFor_takes
  obtain ⟨found, resolved⟩ := h.tree.resolve_some path
  refine .congr (Prog.bind_ok (look_some resolved)) ?_
  cases found with
  | some idx => exact .pure h.tree
  | none =>
    by_cases wanted : Vfs.wantsCreate flags
    · simp only [wanted, if_true]
      exact Kept.isTree (createFilePath_total h.tree (free resolved wanted))
    · simp only [wanted]
      exact .pure h.tree

theorem Fs.Intact.mkdirPath (h : s.Intact) {path : List UInt8} (free : (FsOp.mkdirPath path).Meets s) :
    Prog.Total (Fs.mkdirPath path) s (fun _ s' => s'.Intact) (fun s' => s'.Intact) :=
  h.total (Kept.isTree (mkdirPath_total h.tree free)) mkdirPath_takes

theorem Fs.Intact.remove (h : s.Intact) {parent child : Int} :
    Prog.Total (Fs.remove parent child) s (fun _ s' => s'.Intact) (fun s' => s'.Intact) :=
  h.total ((remove_total h.tree).mono (fun _ _ kept => kept.1) fun _ kept => kept.1) remove_takes

theorem Fs.Intact.resolve (h : s.Intact) (path : List UInt8) {E : Fs → Prop} :
    Prog.Total (look (·.resolve path)) s (fun _ s' => s'.Intact) E := by
  obtain ⟨found, resolved⟩ := h.tree.resolve_some path
  exact look_total resolved h

theorem Fs.Intact.read (h : s.Intact) {E : Fs → Prop} (idx : Int) (cap offset : Nat) :
    Prog.Total (look fun s => some (s.read idx cap offset)) s (fun _ s' => s'.Intact) E := look_total rfl h

/-- A write changes the bytes and the size of one file. -/
theorem Fs.Intact.write (h : s.Intact) {E : Fs → Prop} {i : Idx} {data : List UInt8} {offset : Nat}
    (within : s.ntypes i = some .file → offset ≤ fileSize) :
    Prog.Total (Fs.write i.val data offset) s (fun _ s' => s'.Intact) E := by
  cases run : Fs.write i.val data offset s with
  | ok r s' =>
    have stays := (write_post.ok r s' run).1
    refine .of_ok ⟨r, s', run, ?_, stays.bounded h.bounded⟩
    obtain ⟨kids, depth, tree⟩ := h.tree
    cases r with
    | none =>
      obtain rfl := write_none run
      exact ⟨kids, depth, tree⟩
    | some n =>
      obtain ⟨_, _, rfl⟩ := write_ok run
      exact ⟨kids, depth, { tree with }⟩
  | err e s' =>
    simp only [Fs.write, index?_val] at run
    split_ifs at run
  | fault s' =>
    simp only [Fs.write, index?_val] at run
    split_ifs at run with other behind
    exact absurd (within (not_not.mp other)) (by omega)

theorem listLoop_some (cap : Nat) {l : Option Idx} {xs : List Idx} (h : Links.Path s.nextSibling l xs none)
    {rounds : Nat} (enough : xs.length ≤ rounds) (first : Bool) (written : List UInt8) :
    ∃ names, s.listLoop cap rounds first l written = some names := by
  induction xs generalizing l rounds first written with
  | nil =>
    obtain rfl : l = none := h
    cases rounds <;> exact ⟨_, rfl⟩
  | cons x xs ih =>
    obtain ⟨rfl, rest⟩ := h
    obtain ⟨rounds, rfl⟩ : ∃ n, rounds = n + 1 := ⟨rounds - 1, by simp at enough; omega⟩
    rw [Fs.listLoop]
    split_ifs
    · exact ⟨_, rfl⟩
    all_goals exact ih rest (by simpa using enough) _ _

theorem Fs.Intact.readdirNames (h : s.Intact) {E : Fs → Prop} (idx : Int) (cap : Nat) :
    Prog.Total (look (·.readdirNames idx cap)) s (fun _ s' => s'.Intact) E := by
  obtain ⟨kids, depth, tree⟩ := id h.tree
  have listed : ∃ names, s.readdirNames idx cap = some names := by
    unfold Fs.readdirNames
    cases index? idx with
    | none => exact ⟨_, rfl⟩
    | some p =>
      obtain ⟨names, listed⟩ := listLoop_some cap (tree.path p) (tree.length_le p).le true []
      simp only [listed]
      split_ifs <;> exact ⟨_, rfl⟩
  obtain ⟨names, listed⟩ := listed
  exact look_total listed h

end Files

/-! ## Calls -/

namespace Vfs

variable {s : Vfs} {k : Fin maxSessions} {fd : Nat}

theorem safe_read {buf : List UInt8} (head : buf.head? = some vfsRead) :
    s.Safe k buf ↔ cmdArg32₁ buf = ttyFd ∨ s.InTable k (cmdArg32₁ buf) := by
  rw [Safe, head]
  exact Iff.rfl

theorem safe_write {buf : List UInt8} (head : buf.head? = some vfsWrite) :
    s.Safe k buf ↔ (buf.length > cmdHeader → cmdHeader + cmdArg32₂ buf ≤ buf.length) ∧
      (cmdArg32₁ buf = ttyFd ∨ s.InTable k (cmdArg32₁ buf) ∧ s.WithinArray k (cmdArg32₁ buf)) := by
  rw [Safe, head]
  exact Iff.rfl

theorem onFs_total {α : Type} {m : FsM α} {Q : α → Vfs → Prop} {E : Vfs → Prop}
    (total : Prog.Total m s.fs (fun a fs => Q a { s with fs }) fun fs => E { s with fs }) :
    Prog.Total (onFs m) s Q E := total.zoom (fun _ _ h => h) fun _ h => h

theorem doOpen_total (h : s.fs.Intact) {path : List UInt8} {flags : Nat}
    (free : (s.sessions k).isSome → ¬(path = devTty ∨ path = slash :: devTty) →
      s.fs.resolve (Fs.clean path) = some none → wantsCreate flags →
        (FsOp.createFilePath (Fs.clean path)).Meets s.fs) :
    Prog.Total (doOpen k path flags) s (fun _ s' => s'.fs.Intact) (fun s' => s'.fs.Intact) := by
  refine .get_bind ?_
  cases here : s.sessions k with
  | none => exact .pure h
  | some sess =>
    by_cases tty : path = devTty ∨ path = slash :: devTty
    · simp only [tty, if_true]
      exact .pure h
    · simp only [tty, if_false]
      refine (onFs_total (Q := fun _ s' => s'.fs.Intact)
        (h.nodeFor (free (by rw [here]; rfl) tty))).bind ?_
      rintro (_ | idx) s' h'
      · exact .throw h'
      · cases freeFd sess with
        | none => exact .throw h'
        | some fd => exact .modify_bind (.pure h')

theorem doClose_total (h : s.fs.Intact) :
    Prog.Total (doClose k fd) s (fun _ s' => s'.fs.Intact) (fun s' => s'.fs.Intact) := by
  unfold doClose
  by_cases tty : fd = ttyFd
  · rw [if_pos tty]
    exact .pure h
  · rw [if_neg tty]
    refine .get_bind ?_
    cases s.sessions k with
    | none => exact .pure h
    | some sess =>
      by_cases inside : fd < maxFds
      · simp only [inside, dif_pos]
        exact .modify_bind (.pure h)
      · simp only [inside, dif_neg, not_false_eq_true]
        exact .pure h

/-- A descriptor of the table goes with what is done on its file. -/
theorem through_total {α : Type} (h : s.fs.Intact) {size : α → Nat} {act : OpenFile → FsM (Option α)}
    (inTable : s.InTable k fd) (acts : ∀ inside : fd < maxFds, ∀ f ∈ s.fdAt k ⟨fd, inside⟩,
      Prog.Total (act f) s.fs (fun _ fs => fs.Intact) (fun fs => fs.Intact)) :
    Prog.Total (through size act k fd) s (fun _ s' => s'.fs.Intact) (fun s' => s'.fs.Intact) := by
  refine .get_bind ?_
  cases here : s.sessions k with
  | none => exact .pure h
  | some sess =>
    have inside : fd < maxFds := inTable (by rw [here]; rfl)
    simp only [inside, dif_pos]
    cases open_ : sess.fds ⟨fd, inside⟩ with
    | none => exact .pure h
    | some f =>
      have mem : f ∈ s.fdAt k ⟨fd, inside⟩ := by simp [fdAt, here, open_]
      refine (onFs_total (Q := fun _ s' => s'.fs.Intact) (acts inside f mem)).bind ?_
      rintro (_ | a) s' h'
      · exact .pure h'
      · by_cases moved : size a > 0
        · simp only [moved, if_true]
          exact .modify_bind (.pure h')
        · simp only [moved, if_false]
          exact .pure h'

/-- Another descriptor is an index out of bounds. -/
theorem through_faulted {α : Type} {size : α → Nat} {act : OpenFile → FsM (Option α)}
    (outside : ¬s.InTable k fd) : (through size act k fd s).faulted = true := by
  unfold InTable at outside
  push Not at outside
  obtain ⟨live, behind⟩ := outside
  obtain ⟨sess, here⟩ := Option.isSome_iff_exists.mp live
  rw [through, Prog.bind_ok (Prog.get_apply s)]
  simp only [here, dif_neg behind.not_gt, Prog.fault_apply]
  rfl

/-- A write behind the array of a file. -/
theorem doWrite_faulted {data : List UInt8} (behind : ¬s.WithinArray k fd) (not_tty : fd ≠ ttyFd) :
    (doWrite k fd data s).faulted = true := by
  unfold WithinArray at behind
  push Not at behind
  obtain ⟨inside, f, mem, file, behind⟩ := behind
  obtain ⟨sess, here, open_⟩ := Option.bind_eq_some_iff.mp (Option.mem_def.mp mem)
  have wrote : onFs (Fs.write f.nodeIdx.val data f.offset) s = .fault s := by
    simp [onFs, Prog.zoom, Fs.write, index?_val, file, behind]
  rw [doWrite, if_neg not_tty, through, Prog.bind_ok (Prog.get_apply s)]
  simp only [here, dif_pos inside, open_]
  rw [Prog.bind_fault wrote]
  rfl

theorem removeAt_total (h : s.fs.Intact) {path : List UInt8} {refused : VfsM (Option Nat)}
    (quiet : ∀ s', s'.fs.Intact → Prog.Total refused s' (fun _ s' => s'.fs.Intact) (fun s' => s'.fs.Intact)) :
    Prog.Total (removeAt path refused) s (fun _ s' => s'.fs.Intact) (fun s' => s'.fs.Intact) := by
  refine (onFs_total (Q := fun _ s' => s'.fs.Intact) (h.resolve path)).bind ?_
  rintro (_ | idx) s' h'
  · exact .throw h'
  · refine .get_bind ?_
    cases s'.fs.parentOf idx with
    | none => exact .throw h'
    | some parent =>
      refine (onFs_total (Q := fun _ s' => s'.fs.Intact) h'.remove).bind ?_
      rintro (_ | _) s'' h''
      · exact quiet s'' h''
      · exact .pure h''

theorem doStat_total (h : s.fs.Intact) {path : List UInt8} :
    Prog.Total (doStat path) s (fun _ s' => s'.fs.Intact) (fun s' => s'.fs.Intact) := by
  refine (onFs_total (Q := fun _ s' => s'.fs.Intact) (h.resolve _)).bind ?_
  rintro (_ | idx) s' h'
  · exact .pure h'
  · exact .get_bind (.pure h')

end Vfs

/-! ## Requests -/

namespace Service

variable {s : Service} {k : Fin maxSessions} {buf : List UInt8}

/-- The request is done: the file system is intact, and one message at most was sent. -/
def Done (s s' : Service) : Prop := s'.vfs.fs.Intact ∧ s'.sent.length ≤ s.sent.length + 1

/-- A call comes back, with an error as a value, and sends nothing. -/
theorem call_total {α : Type} {m : VfsM α}
    (total : Prog.Total m s.vfs (fun _ s' => s'.fs.Intact) (fun s' => s'.fs.Intact)) {E : Service → Prop} :
    Prog.Total (call m) s (fun _ s' => s'.vfs.fs.Intact ∧ s'.sent = s.sent) E :=
  (total.attempt (Q := fun _ s' => s'.fs.Intact) (E := fun _ => False) fun _ _ h => h).zoom
    (fun _ _ h => ⟨h, rfl⟩) fun _ h => h.elim

theorem channelWrite_total {s' : Service} (h : s'.vfs.fs.Intact ∧ s'.sent = s.sent) (bytes : List UInt8)
    {E : Service → Prop} : Prog.Total (channelWrite k bytes) s' (fun _ t => Done s t) E :=
  .modify ⟨h.1, by simp [h.2]⟩

theorem respond_total {m : VfsM (Option Nat)} {E : Service → Prop}
    (total : Prog.Total m s.vfs (fun _ s' => s'.fs.Intact) (fun s' => s'.fs.Intact)) :
    Prog.Total (respond k m) s (fun _ t => Done s t) E :=
  (call_total total).bind fun _ _ h => channelWrite_total h _

theorem respondData_total {m : VfsM (Option (List UInt8))} {E : Service → Prop}
    (total : Prog.Total m s.vfs (fun _ s' => s'.fs.Intact) (fun s' => s'.fs.Intact)) :
    Prog.Total (respondData k m) s (fun _ t => Done s t) E := by
  refine (call_total total).bind ?_
  rintro (e | _ | data) s' h <;> exact channelWrite_total h _

/-- The data of a write is in the request. -/
theorem payload_eq (fits : buf.length > cmdHeader → cmdHeader + cmdArg32₂ buf ≤ buf.length) :
    ∃ data, ∀ s, payload buf s = .ok data s := by
  unfold payload
  by_cases some_data : buf.length > cmdHeader ∧ cmdArg32₂ buf > 0
  · simp only [if_pos some_data, if_pos (fits some_data.1)]
    exact ⟨_, fun _ => rfl⟩
  · simp only [if_neg some_data]
    split_ifs <;> exact ⟨_, fun _ => rfl⟩

theorem payload_faulted (behind : ¬(buf.length > cmdHeader → cmdHeader + cmdArg32₂ buf ≤ buf.length)) :
    payload buf s = .fault s := by
  push Not at behind
  obtain ⟨long, behind⟩ := behind
  have some_data : cmdArg32₂ buf > 0 := by omega
  unfold payload
  simp only [long, some_data, and_self, if_true, if_neg behind.not_ge]
  rfl

/-- A fault in a call is a fault of the command. -/
theorem call_faulted {α : Type} {m : VfsM α} {f : Except Status α → ServiceM Unit}
    (h : (m s.vfs).faulted = true) : ((call m >>= f) s).faulted = true := by
  cases run : m s.vfs with
  | ok a s' => rw [run] at h; cases h
  | err e s' => rw [run] at h; cases h
  | fault s' =>
    have run : call m s = .fault { s with vfs := s' } := by simp [call, Prog.zoom, Prog.attempt, run]
    rw [Prog.bind_fault run]
    rfl

/-- A safe request is answered. -/
theorem handleCmd_total (h : s.vfs.fs.Intact) (free : (ServeOp.command k buf).FindsFree s.vfs)
    (safe : s.vfs.Safe k buf) {E : Service → Prop} :
    Prog.Total (handleCmd k buf) s (fun _ t => Done s t) E := by
  cases buf with
  | nil => exact .pure ⟨h, Nat.le_succ _⟩
  | cons cmd rest =>
    unfold handleCmd
    simp only
    split
    case h_1 => exact respond_total (Vfs.doOpen_total h free)
    case h_2 => exact respond_total (Vfs.doClose_total h)
    case h_3 =>
      refine respondData_total ?_
      unfold Vfs.doRead
      rcases safe with tty | inTable
      · rw [if_pos tty]
        exact .pure h
      · split_ifs
        · exact .pure h
        · exact Vfs.through_total h inTable fun _ f _ => h.read _ _ _
    case h_4 =>
      obtain ⟨data, run⟩ := payload_eq safe.1
      refine .congr (Prog.bind_ok (run s)) (respond_total ?_)
      unfold Vfs.doWrite
      rcases safe.2 with tty | ⟨inTable, within⟩
      · rw [if_pos tty]
        exact .pure h
      · split_ifs
        · exact .pure h
        · exact Vfs.through_total h inTable fun inside f mem => h.write (within inside f mem)
    case h_5 =>
      refine respond_total ?_
      exact (Vfs.onFs_total (Q := fun _ s' => s'.fs.Intact) (h.mkdirPath free)).bind fun _ _ h => .pure h
    case h_6 => exact respond_total (Vfs.removeAt_total h fun _ h => .throw h)
    case h_7 => exact respond_total (Vfs.removeAt_total h fun _ h => .pure h)
    case h_8 => exact respondData_total (Vfs.through_total h safe fun _ f _ => h.readdirNames _ _)
    case h_9 =>
      refine (call_total (Vfs.doStat_total h)).bind fun _ _ h => ?_
      exact channelWrite_total h _
    case h_10 => exact channelWrite_total ⟨h, rfl⟩ _

/-- Any other request ends the server. -/
theorem handleCmd_faulted (hazard : ¬s.vfs.Safe k buf) : (handleCmd k buf s).faulted = true := by
  cases buf with
  | nil => exact absurd trivial hazard
  | cons cmd rest =>
    unfold handleCmd
    simp only
    split
    case h_3 =>
      obtain ⟨not_tty, outside⟩ := not_or.mp hazard
      refine call_faulted ?_
      rw [Vfs.doRead, if_neg not_tty]
      exact Vfs.through_faulted outside
    case h_4 =>
      change ((payload (vfsWrite :: rest) >>= _) s).faulted = true
      by_cases fits : (vfsWrite :: rest).length > cmdHeader →
          cmdHeader + cmdArg32₂ (vfsWrite :: rest) ≤ (vfsWrite :: rest).length
      · obtain ⟨data, run⟩ := payload_eq fits
        obtain ⟨not_tty, hazard⟩ := not_or.mp fun safe => hazard ⟨fits, safe⟩
        rw [Prog.bind_ok (run s)]
        refine call_faulted ?_
        by_cases inTable : s.vfs.InTable k (cmdArg32₁ (vfsWrite :: rest))
        · exact Vfs.doWrite_faulted (fun within => hazard ⟨inTable, within⟩) not_tty
        · rw [Vfs.doWrite, if_neg not_tty]
          exact Vfs.through_faulted inTable
      · rw [Prog.bind_fault (payload_faulted fits)]
        rfl
    case h_8 => exact call_faulted (Vfs.through_faulted hazard)
    case h_10 =>
      refine absurd ?_ hazard
      unfold Vfs.Safe
      split
      case h_4 => trivial
      all_goals simp_all
    all_goals exact absurd trivial hazard

/-- The command comes to an end and has sent one response at most. -/
def Answers (s : Service) (k : Fin maxSessions) (buf : List UInt8) : Prop :=
  ∃ t, handleCmd k buf s = .ok () t ∧ t.sent.length ≤ s.sent.length + 1

theorem answers_iff (h : s.vfs.fs.Intact) (free : (ServeOp.command k buf).FindsFree s.vfs) :
    s.Answers k buf ↔ s.vfs.Safe k buf := by
  constructor
  · rintro ⟨t, run, _⟩
    by_contra hazard
    have faulted := handleCmd_faulted hazard
    rw [run] at faulted
    cases faulted
  · intro safe
    have total := handleCmd_total h free safe (E := fun _ => False)
    cases run : handleCmd k buf s with
    | ok a t => exact ⟨t, run, (total.post.ok a t run).2⟩
    | err e t => exact (total.post.err e t run).elim
    | fault t => exact (total.post.fault t run).elim

theorem start_intact : start.vfs.fs.Intact := by
  have free : (FsOp.mkdirPath Vfs.dev).Meets Fs.start := by
    unfold FsOp.Meets Fs.Fresh
    decide +kernel
  have made := Fs.Intact.mkdirPath ⟨start_isTree, fun _ => Nat.zero_le _⟩ free
  exact made.post.state

/-- The file system is intact after every request that is answered and finds its index free. -/
theorem Intact.step {op : ServeOp} {s' : Service} (h : s.vfs.fs.Intact) (free : op.FindsFree s.vfs)
    (step : ServeOp.system.Steps op s s') : s'.vfs.fs.Intact := by
  have drop {α : Type} {m : VfsM α} (quiet : Prog.Total m s.vfs (fun _ t => t.fs.Intact) (fun t => t.fs.Intact)) :
      Prog.Total (do let _ ← call m) s (fun _ t => t.vfs.fs.Intact) (fun t => t.vfs.fs.Intact) :=
    (call_total quiet).bind fun _ _ h => .pure h.1
  have last (total : Prog.Total op.perform s (fun _ t => t.vfs.fs.Intact) (fun t => t.vfs.fs.Intact)) :
      s'.vfs.fs.Intact := step.ran.state_eq ▸ total.post.state
  cases op with
  | connect =>
    refine last (drop (.get_bind ?_))
    cases (List.finRange maxSessions).find? fun k => (s.vfs.sessions k).isNone with
    | none => exact .pure h
    | some k => exact .modify_bind (.pure h)
  | hangup k => exact last (drop (.modify h))
  | command k buf =>
    by_cases safe : s.vfs.Safe k buf
    · exact last ((handleCmd_total h free safe).mono (fun _ _ done => done.1) fun _ h => h)
    · have ended := step.ran
      have faulted := handleCmd_faulted safe
      cases run : handleCmd k buf s with
      | ok a t => rw [run] at faulted; cases faulted
      | err e t => rw [run] at faulted; cases faulted
      | fault t =>
        have run : ServeOp.system.exec (.command k buf) s = .fault t := run
        rw [run] at ended
        cases ended

theorem intact_run (run : ServeOp.system.Run (fun s op => op.FindsFree s.vfs) start s) :
    s.vfs.fs.Intact := run.invariant start_intact fun _ _ _ h free step => Intact.step h free step

end Service

/-! ## The requests of libc -/

/-- What libc asks for. `remoteFd` is what the server answered to `open`. -/
inductive LibcCall where
  | openPath (path : List UInt8) (flags : BitVec 32)
  | read (remoteFd : BitVec 32) (count : Nat)
  | write (remoteFd : BitVec 32) (buf : List UInt8)
  | close (remoteFd : BitVec 32)

namespace LibcCall

def request : LibcCall → List UInt8
  | openPath path flags => Libc.openRequest path flags
  | read remoteFd count => Libc.readRequest remoteFd count
  | write remoteFd buf => Libc.writeRequest remoteFd buf
  | close remoteFd => Libc.closeRequest remoteFd

/-- A write is of 128 bytes at most, as far as its 32-bit count can tell, and the descriptors are those
of the session. -/
def Fits (s : Vfs) (k : Fin maxSessions) : LibcCall → Prop
  | openPath _ _ => True
  | read remoteFd _ => remoteFd.toNat = ttyFd ∨ s.InTable k remoteFd.toNat
  | write remoteFd buf => buf.length % 2 ^ 32 ≤ inlineDataMax ∧
      (remoteFd.toNat = ttyFd ∨ s.InTable k remoteFd.toNat ∧ s.WithinArray k remoteFd.toNat)
  | close _ => True

theorem safe_iff {s : Vfs} {k : Fin maxSessions} (c : LibcCall) : s.Safe k c.request ↔ c.Fits s k := by
  cases c with
  | openPath path flags => exact Iff.rfl
  | close remoteFd => exact Iff.rfl
  | read remoteFd count =>
    have arg : cmdArg32₁ (Libc.readRequest remoteFd count) = remoteFd.toNat := Libc.request_arg1
    change s.Safe k (Libc.readRequest remoteFd count) ↔ _
    rw [Vfs.safe_read rfl, arg]
    exact Iff.rfl
  | write remoteFd buf =>
    have arg : cmdArg32₁ (Libc.writeRequest remoteFd buf) = remoteFd.toNat := Libc.request_arg1
    have len : cmdArg32₂ (Libc.writeRequest remoteFd buf) = buf.length % 2 ^ 32 :=
      Libc.request_arg2.trans (BitVec.toNat_ofNat _ _)
    have length : (Libc.writeRequest remoteFd buf).length = cmdSize := Libc.request_length
    change s.Safe k (Libc.writeRequest remoteFd buf) ↔ _
    rw [Vfs.safe_write rfl, arg, len, length]
    refine and_congr ?_ Iff.rfl
    change (20 < 148 → 20 + buf.length % 2 ^ 32 ≤ 148) ↔ buf.length % 2 ^ 32 ≤ 128
    omega

end LibcCall

/-- In every run in which new nodes are made at free indices, the arrays of the files are not left, and
the next request is answered exactly when it is safe. -/
theorem fileagent_answers {s : Service}
    (run : ServeOp.system.Run (fun s op => op.FindsFree s.vfs) .start s) (k : Fin maxSessions)
    (buf : List UInt8) (free : (ServeOp.command k buf).FindsFree s.vfs) :
    (∀ i, s.vfs.fs.sizes i ≤ fileSize) ∧ (s.Answers k buf ↔ s.vfs.Safe k buf) ∧
      ∀ c : LibcCall, buf = c.request → (s.Answers k buf ↔ c.Fits s.vfs k) := by
  have intact := Service.intact_run run
  have answers := Service.answers_iff intact free
  exact ⟨intact.bounded, answers, fun c built => answers.trans (built ▸ c.safe_iff)⟩

/-- A session is open. -/
theorem connected : ServeOp.system.Run (fun s op => op.FindsFree s.vfs) .start
    (ServeOp.system.after .start [.connect]) := by
  refine Lib.Stepper.Run.start.follow ⟨trivial, trivial, ?_, trivial⟩
  decide +kernel

/-- A read through a descriptor that is not open is answered. -/
theorem fileagent_answers_read :
    (ServeOp.system.after .start [.connect]).Answers 0 (LibcCall.read 3 16).request :=
  ((fileagent_answers connected 0 (LibcCall.read 3 16).request trivial).2.2 _ rfl).mpr
    (Or.inr fun _ => by decide)

/-- A write of 129 bytes ends the server, and so does a read through the descriptor 16. -/
theorem fileagent_crashes : ∃ s, ServeOp.system.Run (fun _ _ => True) .start s ∧
    ¬s.Answers 0 (Libc.writeRequest 0 (List.replicate 129 97)) ∧ ¬s.Answers 0 [3, 0, 0, 0, 16, 0, 0, 0] := by
  have long : ¬(ServeOp.system.after .start [.connect]).vfs.Safe 0
      (LibcCall.write 0 (List.replicate 129 97)).request := fun safe => by
    have fits := ((LibcCall.safe_iff _).mp safe).1
    rw [List.length_replicate] at fits
    revert fits
    decide
  have behind : ¬(ServeOp.system.after .start [.connect]).vfs.Safe 0 [3, 0, 0, 0, 16, 0, 0, 0] := fun safe => by
    rcases safe with tty | inTable
    · revert tty
      decide
    · have inside := inTable (by decide +kernel)
      revert inside
      decide
  have crash {s : Service} {buf : List UInt8} (hazard : ¬s.vfs.Safe 0 buf) : ¬s.Answers 0 buf := by
    rintro ⟨t, run, _⟩
    have faulted := Service.handleCmd_faulted hazard
    rw [run] at faulted
    cases faulted
  exact ⟨_, connected.mono fun _ _ _ => trivial, crash long, crash behind⟩

end CapsuleOS.Fileagent
