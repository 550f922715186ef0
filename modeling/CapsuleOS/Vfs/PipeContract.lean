import CapsuleOS.Task.UserMemory
import CapsuleOS.Vfs.PipeRuns

/-!
# What the calls on pipes promise

Two contracts and the states in which the code keeps them. A read that returns nothing is to mean the end
of the stream; the code returns nothing as well while a writer is slow. `sys_pipe` is to succeed exactly
if there is a pipe, two descriptors and a place for the answer; the code takes pipes that it does not give
back, looks for both descriptors before it takes one, and does not ask whether the answer arrived.
-/
namespace CapsuleOS

open Lib

/-! ## The end of a stream -/

namespace Pipes

variable {t : Pipes} {i : Fin maxPipes} {p : Pipe} {len : Nat}

/-- What the contract of `pipe_read` says of an empty result and of an empty ring. -/
structure TellsEnd (t : Pipes) (i : Fin maxPipes) (p : Pipe) (len : Nat) : Prop where
  ended : (∃ t', pipeRead i len t = .ok [] t') ↔ p.head = p.tail ∧ p.nWriters = 0
  waits : p.head = p.tail → p.nWriters ≠ 0 → pipeRead i len t = .err .notAllowed t

theorem pipeRead_eq_nil (live : t.table i = some p) (some_room : len ≠ 0) :
    (∃ t', pipeRead i len t = .ok [] t') ↔ p.head = p.tail := by
  rw [← Pipe.read_eq_nil some_room]
  constructor
  · rintro ⟨t', run⟩
    simp only [pipeRead, onPipe, dif_pos i.isLt, Fin.eta, live] at run
    cases ran : Pipe.read len p <;> simp [ran] at run
    exact ⟨_, by rw [run.1]⟩
  · rintro ⟨p', run⟩
    exact ⟨_, onPipe_ok live run⟩

/-- A read tells the end of the stream apart unless the ring is empty and a writer remains. -/
theorem read_tellsEnd_iff (live : t.table i = some p) (some_room : len ≠ 0) :
    t.TellsEnd i p len ↔ ¬ (p.head = p.tail ∧ p.nWriters ≠ 0) := by
  have nothing := pipeRead_eq_nil live some_room
  constructor
  · rintro contract ⟨empty, writers⟩
    exact writers (contract.ended.mp (nothing.mpr empty)).2
  · intro clear
    refine ⟨nothing.trans ⟨fun empty => ⟨empty, ?_⟩, And.left⟩, fun empty writers => ?_⟩
    · by_contra writers
      exact clear ⟨empty, writers⟩
    · exact absurd ⟨empty, writers⟩ clear

/-- A pipe that was just made, with its writer still there. -/
def onePipe : Pipes := Pipes.init.allocPipe.state

/-- The same pipe after its writer has left. -/
def noWriter : Pipes := (onePipe.closeRole 0 .write).state

theorem read_tellsEnd_noWriter : ∃ p, noWriter.table ⟨0, by decide⟩ = some p ∧
    noWriter.TellsEnd ⟨0, by decide⟩ p 1 :=
  ⟨_, rfl, (read_tellsEnd_iff rfl (by decide)).mpr (by decide)⟩

/-- The reader of a new pipe gets nothing and no error, as at the end of a stream. -/
theorem slow_writer_reads_as_end : ∃ p, onePipe.table ⟨0, by decide⟩ = some p ∧ p.nWriters = 1 ∧
    ¬ onePipe.TellsEnd ⟨0, by decide⟩ p 1 := by
  refine ⟨_, rfl, rfl, fun contract => ?_⟩
  have ended := contract.ended.mp ((pipeRead_eq_nil rfl (by decide)).mpr rfl)
  exact absurd ended.2 (by decide)

end Pipes

/-! ## Two descriptors -/

section Scan

variable {t : FdTable} {start : Nat} {fd : Fin fdTableSize}

/-- The number of rounds after which a scan from `start` reaches a slot. -/
def rounds (start fd : Nat) : Nat := (fd + 16 - start) % 16

theorem rounds_le_iff {a b : Nat} (start_lt : start < 16) (a_lt : a < 16) (b_lt : b < 16) :
    rounds start a ≤ rounds start b ↔ (start ≤ a ∧ (b < start ∨ a ≤ b)) ∨ (a < start ∧ b < start ∧ a ≤ b) := by
  unfold rounds
  omega

/-- A scan finds the free slot that it reaches first. -/
theorem scanFds_nearest (lt : start < fdTableSize) {f : Fin fdTableSize} (free : t f = none) :
    ∃ fd, Os.scanFds t fdTableSize start = some fd ∧ t fd = none ∧
      ∀ g : Fin fdTableSize, t g = none → rounds start fd ≤ rounds start g := by
  have start_lt : start < 16 := lt
  have reach : ∀ g : Fin fdTableSize, fdAt start (rounds start g) = g := by
    intro g
    have g_lt : g.val < 16 := g.isLt
    apply Fin.ext
    change (start + (g.val + 16 - start) % 16) % 16 = g.val
    omega
  have inside : ∀ g, rounds start g < fdTableSize := fun g => Nat.mod_lt _ (by decide)
  rcases scanFds_spec t fdTableSize lt with ⟨_, all⟩ | ⟨k, k_lt, found, here, first⟩
  · exact absurd (by rwa [reach]) (all _ (inside f))
  · refine ⟨_, found, here, fun g free_g => ?_⟩
    have k_lt : k < 16 := k_lt
    have self : rounds start (fdAt start k) = k := by
      change ((start + k) % 16 + 16 - start) % 16 = k
      omega
    rw [self]
    by_contra early
    exact first _ (not_le.mp early) (by rwa [reach])

theorem scanFds_full (lt : start < fdTableSize) (full : ∀ fd, t fd ≠ none) :
    Os.scanFds t fdTableSize start = none := by
  rcases scanFds_spec t fdTableSize lt with ⟨found, _⟩ | ⟨k, _, _, here, _⟩
  · exact found
  · exact absurd here (full _)

/-- The place at which the search goes on after a find. -/
def behind (fd : Fin fdTableSize) : Nat := max ((fd.val + 1) % fdTableSize) userFdBase

theorem behind_lt (fd : Fin fdTableSize) : behind fd < fdTableSize :=
  Nat.max_lt.mpr ⟨Nat.mod_lt _ (by decide), by decide⟩

theorem behind_spec {fd : Fin fdTableSize} (user : userFdBase ≤ fd.val) :
    (fd.val = 15 ∧ behind fd = 3) ∨ (fd.val < 15 ∧ behind fd = fd.val + 1) := by
  have fd_lt : fd.val < 16 := fd.isLt
  have eq : behind fd = max ((fd.val + 1) % 16) 3 := rfl
  simp only [userFdBase] at user
  omega

end Scan

namespace Process

variable {p : Process}

/-- The slot at which the search for a descriptor begins. -/
def cursor (p : Process) : Nat :=
  if max p.nextFd userFdBase < fdTableSize then max p.nextFd userFdBase else userFdBase

/-- The descriptors that a program may be given. -/
def freeUserFds (p : Process) : Finset (Fin fdTableSize) := {fd | userFdBase ≤ fd.val ∧ p.fdTable fd = none}

theorem mem_freeUserFds {fd : Fin fdTableSize} :
    fd ∈ p.freeUserFds ↔ userFdBase ≤ fd.val ∧ p.fdTable fd = none := by simp [freeUserFds]

/-- Two searches one after the other, of which the second begins behind the find of the first, do not
come back to a slot or to a number below 3. -/
def Roomy (p : Process) : Prop :=
  p.fdTable ⟨15, by decide⟩ = none ∨
  (∃ f g : Fin fdTableSize, p.cursor ≤ f.val ∧ f.val < g.val ∧ p.fdTable f = none ∧ p.fdTable g = none) ∨
  ∀ fd : Fin fdTableSize, fd.val < userFdBase → p.fdTable fd ≠ none

theorem cursor_spec (p : Process) : userFdBase ≤ p.cursor ∧ p.cursor < fdTableSize ∧
    Os.scanFds p.fdTable fdTableSize (max p.nextFd userFdBase) =
      Os.scanFds p.fdTable fdTableSize p.cursor := by
  unfold cursor
  split_ifs with lt
  · exact ⟨Nat.le_max_right _ _, lt, rfl⟩
  · exact ⟨le_rfl, by decide, scanFds_wrap _ lt _⟩

/-- With two free descriptors, both searches find distinct ones of them exactly if there is room. -/
theorem roomy_iff {rd wr : Fin fdTableSize} (two : 2 ≤ p.freeUserFds.card)
    (free_rd : p.fdTable rd = none) (free_wr : p.fdTable wr = none)
    (near_rd : ∀ g : Fin fdTableSize, p.fdTable g = none → rounds p.cursor rd ≤ rounds p.cursor g)
    (near_wr : ∀ g : Fin fdTableSize, p.fdTable g = none → rounds (behind rd) wr ≤ rounds (behind rd) g) :
    (rd ≠ wr ∧ userFdBase ≤ rd.val ∧ userFdBase ≤ wr.val) ↔ p.Roomy := by
  obtain ⟨low, (high : p.cursor < 16), -⟩ := p.cursor_spec
  have near_rd := fun g free => (rounds_le_iff high rd.isLt g.isLt).mp (near_rd g free)
  have near_wr := fun g free => (rounds_le_iff (behind_lt rd) wr.isLt g.isLt).mp (near_wr g free)
  have rd_lt : rd.val < 16 := rd.isLt
  simp only [userFdBase] at low ⊢
  have by_val : rd ≠ wr ↔ rd.val ≠ wr.val := not_congr Fin.ext_iff
  rw [by_val]
  constructor
  · rintro ⟨ne, rd_user, wr_user⟩
    by_contra tight
    simp only [Roomy, not_or, not_exists, not_and, not_forall, not_not] at tight
    obtain ⟨last, pairs, kernel, kernel_low, free_kernel⟩ := tight
    simp only [userFdBase] at kernel_low
    -- the free slot below 3 is behind both finds, so both are reached without going round
    have rd_near := near_rd kernel free_kernel
    have wr_near := near_wr kernel free_kernel
    rcases behind_spec rd_user with ⟨rd_last, _⟩ | ⟨_, next⟩
    · have at_rd : (⟨15, by decide⟩ : Fin fdTableSize) = rd := Fin.ext rd_last.symm
      exact last (by rwa [at_rd])
    · exact pairs rd wr (by omega) (by omega) free_rd free_wr
  · obtain ⟨f, g, f_mem, g_mem, f_ne_g⟩ := Finset.one_lt_card_iff.mp two
    obtain ⟨f_low, free_f⟩ := mem_freeUserFds.mp f_mem
    obtain ⟨g_low, free_g⟩ := mem_freeUserFds.mp g_mem
    have f_lt : f.val < 16 := f.isLt
    have g_lt : g.val < 16 := g.isLt
    have f_wr := near_wr f free_f
    have g_wr := near_wr g free_g
    have f_ne_g : f.val ≠ g.val := fun eq => f_ne_g (Fin.ext eq)
    simp only [userFdBase] at f_low g_low
    rintro (last | ⟨a, b, a_ge, a_lt_b, free_a, free_b⟩ | taken)
    · have l_rd := near_rd _ last
      have l_wr := near_wr _ last
      simp only at l_rd l_wr
      have rd_user : 3 ≤ rd.val := by omega
      rcases behind_spec rd_user with ⟨_, next⟩ | ⟨_, next⟩ <;> rw [next] at f_wr g_wr l_wr <;> omega
    · have b_lt : b.val < 16 := b.isLt
      have a_rd := near_rd a free_a
      have b_wr := near_wr b free_b
      have rd_user : 3 ≤ rd.val := by omega
      rcases behind_spec rd_user with ⟨_, next⟩ | ⟨_, next⟩ <;> rw [next] at b_wr <;> omega
    · have user : ∀ fd, p.fdTable fd = none → 3 ≤ fd.val := by
        intro fd free
        by_contra kernel
        exact taken fd (not_le.mp kernel) free
      have rd_user := user rd free_rd
      have wr_user := user wr free_wr
      rcases behind_spec rd_user with ⟨_, next⟩ | ⟨_, next⟩ <;> rw [next] at f_wr g_wr <;> omega

end Process

/-! ## The call with its answer -/

/-- The descriptors, with the memory that an answer is copied to. `root` gives the root of the page tables
of the process with a given id. -/
structure PipeSys where
  fds : FdSys
  mm : Mm
  root : Nat → Nat

abbrev PipeSysM := Prog PipeSys Status

namespace PipeSys

def onFds {α : Type} (m : FdM α) : PipeSysM α := Prog.zoom PipeSys.fds (fun fds s => { s with fds }) m

def onMm {α : Type} (m : MmM α) : PipeSysM α := Prog.zoom PipeSys.mm (fun mm s => { s with mm }) m

/-- The two `i32` of the answer. -/
def pairBytes (rd wr : Fin fdTableSize) : List UInt8 := Mem.toBytes 4 rd.val ++ Mem.toBytes 4 wr.val

/-- A failure to copy the answer is ignored. -/
def sysPipe (ufdsPtr : Nat) : PipeSysM Unit := do
  let caller ← onFds (FdSys.onOs Os.currentProcessId)
  let _ ← onFds (FdSys.onOs (Os.lookupProcess caller))
  let s ← Prog.get
  let callerL0 := s.root caller
  if callerL0 = 0 ∨ ufdsPtr = 0 then Prog.throw .invalidArgs
  else
    let id ← onFds (FdSys.onPipes Pipes.allocPipe)
    let rd ← onFds (FdSys.onOs (Os.allocUserFd caller))
    let wr ← onFds (FdSys.onOs (Os.allocUserFd caller))
    onFds (FdSys.onOs (Os.setFd caller rd (.pipe id .read)))
    onFds (FdSys.onOs (Os.setFd caller wr (.pipe id .write)))
    let _ ← Prog.attempt (onMm (safeCopyToUser callerL0 (pairBytes rd wr) ufdsPtr))

variable {s s' : PipeSys} {t : Tcb} {p : Process} {ufdsPtr : Nat}

/-- The process of the running thread. -/
structure Calls (s : PipeSys) (p : Process) : Prop where
  running : ∃ t, s.fds.os.sched.getCurrentThread = some t ∧ s.fds.os.findProcess t.processId = some p

/-- The id that the next pipe gets. -/
def nextId (s : PipeSys) : Nat := s.fds.pipes.nextPipeId % 2 ^ 32

def live (t : Pipes) : Finset (Fin maxPipes) := {i | (t.table i).isSome}

def newPipe : Pipe := { Pipe.newUninit with nReaders := 1, nWriters := 1 }

/-- Any two numbers can be copied to the place of the answer. -/
structure Writable (s : PipeSys) (p : Process) (ufdsPtr : Nat) : Prop where
  nonzero : ufdsPtr ≠ 0
  copies : ∀ bytes : List UInt8, bytes.length = 8 →
    ∃ mm, safeCopyToUser (s.root p.id) bytes ufdsPtr s.mm = .ok () mm

/-- What is to be there for a call to succeed. -/
structure Accepts (s : PipeSys) (p : Process) (ufdsPtr : Nat) : Prop where
  calls : s.Calls p
  pipes : (live s.fds.pipes).card < maxPipes
  descriptors : 2 ≤ p.freeUserFds.card
  writable : s.Writable p ufdsPtr

/-- The caller has the two ends of a new pipe at two descriptors that were free, and knows which. -/
structure Installs (s : PipeSys) (p : Process) (ufdsPtr : Nat) (s' : PipeSys) (rd wr : Fin fdTableSize) :
    Prop where
  distinct : rd ≠ wr
  user : userFdBase ≤ rd.val ∧ userFdBase ≤ wr.val
  free : p.fdTable rd = none ∧ p.fdTable wr = none
  pipe : ∃ id : Fin maxPipes, s'.fds.pipes.table id = some newPipe ∧ ∃ p', s'.Calls p' ∧ p'.id = p.id ∧
    p'.fdTable = Function.update (Function.update p.fdTable rd (some (.pipe id .read))) wr
      (some (.pipe id .write))
  reported : safeCopyToUser (s.root p.id) (pairBytes rd wr) ufdsPtr s.mm = .ok () s'.mm

/-- The contract of one call. -/
structure Contract (s : PipeSys) (ufdsPtr : Nat) : Prop where
  succeeds : (∃ s', sysPipe ufdsPtr s = .ok () s') ↔ ∃ p, s.Accepts p ufdsPtr
  installs : ∀ s', sysPipe ufdsPtr s = .ok () s' → ∃ p rd wr, s.Calls p ∧ s.Installs p ufdsPtr s' rd wr
  unchanged : ∀ e s', sysPipe ufdsPtr s = .err e s' →
    s'.fds.pipes.table = s.fds.pipes.table ∧ s'.fds.os.processes = s.fds.os.processes

/-- The calls that meet the contract: there is nobody to serve, the pipes of the counter are spent and the
call has to fail, the pipe that is taken in vain is as new already, or all is there. -/
inductive Met (s : PipeSys) (ufdsPtr : Nat) : Prop where
  | noCaller (nobody : ∀ p, ¬ s.Calls p)
  | noPlace (p : Process) (calls : s.Calls p) (zero : s.root p.id = 0 ∨ ufdsPtr = 0)
  | spent (late : maxPipes ≤ s.nextId) (refused : ∀ p, ¬ s.Accepts p ufdsPtr)
  | crowded (p : Process) (calls : s.Calls p) (full : ∀ fd, p.fdTable fd ≠ none) (id : Fin maxPipes)
      (next : s.nextId = id) (same : s.fds.pipes.table id = some newPipe)
  | served (p : Process) (early : s.nextId < maxPipes) (accepts : s.Accepts p ufdsPtr) (roomy : p.Roomy)

theorem Calls.os (h : s.Calls p) : s.fds.os.Calls p := ⟨h.running⟩

theorem Calls.unique {q : Process} (h : s.Calls p) (h' : s.Calls q) : q = p := h.os.unique h'.os

theorem not_accepts_of_zero {q : Process} (calls : s.Calls p) (zero : s.root p.id = 0 ∨ ufdsPtr = 0) :
    ¬ s.Accepts q ufdsPtr := by
  intro accepts
  obtain rfl := calls.unique accepts.calls
  obtain ⟨mm, run⟩ := accepts.writable.copies (List.replicate 8 0) List.length_replicate
  rcases zero with zero | zero
  · rw [zero] at run
    cases run
  · exact accepts.writable.nonzero zero

/-! ## What a call does -/

theorem onOs_ok {α : Type} {m : OsM α} {a : α} (run : m s.fds.os = .ok a s.fds.os) :
    onFds (FdSys.onOs m) s = .ok a s := Prog.zoom_ok (Prog.zoom_ok run)

theorem onOs_err {α : Type} {m : OsM α} {e : Status} (run : m s.fds.os = .err e s.fds.os) :
    onFds (FdSys.onOs m) s = .err e s := Prog.zoom_err (Prog.zoom_err run)

/-- The lookups at the start of a call, by a caller that exists. -/
theorem caller_ok {α : Type} (calls : s.Calls p) (f : Nat → Process → PipeSysM α) :
    (do
      let caller ← onFds (FdSys.onOs Os.currentProcessId)
      let p ← onFds (FdSys.onOs (Os.lookupProcess caller))
      f caller p : PipeSysM α) s = f p.id p s := by
  rw [Prog.bind_ok (onOs_ok calls.os.current), Prog.bind_ok (onOs_ok calls.os.lookup)]

theorem answer_dropped (l0Pa : Nat) (src : List UInt8) (dest : Nat) (s : PipeSys) :
    ∃ r, Prog.attempt (onMm (safeCopyToUser l0Pa src dest)) s =
      .ok r { s with mm := (safeCopyToUser l0Pa src dest s.mm).state } := by
  rcases safeCopyToUser_cases l0Pa src dest s.mm with ⟨mm', run⟩ | ⟨mm', run⟩
  · exact ⟨_, by rw [run]; exact Prog.attempt_ok (Prog.zoom_ok run)⟩
  · exact ⟨_, by rw [run]; exact Prog.attempt_err (Prog.zoom_err run)⟩

theorem sysPipe_nobody (nobody : ∀ p, ¬ s.Calls p) : sysPipe ufdsPtr s = .err .notFound s := by
  have nobody : ∀ p, ¬ s.fds.os.Calls p := fun p calls => nobody p ⟨calls.running⟩
  rcases Os.lookup_fails nobody with none | ⟨pid, running, missing⟩
  · exact Prog.bind_err (onOs_err none)
  · rw [sysPipe, Prog.bind_ok (onOs_ok running)]
    exact Prog.bind_err (onOs_err missing)

theorem sysPipe_noPlace (calls : s.Calls p) (zero : s.root p.id = 0 ∨ ufdsPtr = 0) :
    sysPipe ufdsPtr s = .err .invalidArgs s := by
  rw [sysPipe, caller_ok calls]
  simp only [Prog.bind_apply, Prog.get, if_pos zero]
  rfl

/-- The state after a pipe was taken. -/
def taken (s : PipeSys) : PipeSys := { s with fds := { s.fds with pipes := s.fds.pipes.allocPipe.state } }

theorem sysPipe_spent (calls : s.Calls p) (root : s.root p.id ≠ 0) (place : ufdsPtr ≠ 0)
    (late : maxPipes ≤ s.nextId) : sysPipe ufdsPtr s = .err .noMemory s.taken := by
  have out : ¬ s.fds.pipes.nextPipeId % 2 ^ 32 < maxPipes := not_lt.mpr late
  rw [sysPipe, caller_ok calls]
  simp only [Prog.bind_apply, Prog.get, if_neg (not_or.mpr ⟨root, place⟩), onFds, FdSys.onPipes,
    Prog.zoom, Pipes.allocPipe, dif_neg out, taken, Outcome.state_err]

theorem taken_table_spent (late : maxPipes ≤ s.nextId) : s.taken.fds.pipes.table = s.fds.pipes.table := by
  have out : ¬ s.fds.pipes.nextPipeId % 2 ^ 32 < maxPipes := not_lt.mpr late
  simp only [taken, Pipes.allocPipe, dif_neg out, Outcome.state_err]

theorem taken_table (early : s.nextId < maxPipes) :
    s.taken.fds.pipes.table = Function.update s.fds.pipes.table ⟨s.nextId, early⟩ (some newPipe) := by
  have inside : s.fds.pipes.nextPipeId % 2 ^ 32 < maxPipes := early
  simp only [taken, Pipes.allocPipe, dif_pos inside, Outcome.state_ok, Pipes.set]
  rfl

theorem allocUserFd_full {os : Os} {pid : Nat} (found : os.findProcess pid = some p)
    (full : ∀ fd, p.fdTable fd ≠ none) : Os.allocUserFd pid os = .err .noMemory os := by
  obtain ⟨-, lt, same⟩ := p.cursor_spec
  simp only [Os.allocUserFd, Prog.bind_apply, Os.lookupProcess, found, same, scanFds_full lt full]
  rfl

theorem sysPipe_crowded (calls : s.Calls p) (root : s.root p.id ≠ 0) (place : ufdsPtr ≠ 0)
    (early : s.nextId < maxPipes) (full : ∀ fd, p.fdTable fd ≠ none) :
    sysPipe ufdsPtr s = .err .noMemory s.taken := by
  have inside : s.fds.pipes.nextPipeId % 2 ^ 32 < maxPipes := early
  rw [sysPipe, caller_ok calls]
  simp only [Prog.bind_apply, Prog.get, if_neg (not_or.mpr ⟨root, place⟩), onFds, FdSys.onPipes,
    FdSys.onOs, Prog.zoom, Pipes.allocPipe, dif_pos inside, allocUserFd_full calls.os.found full, taken,
    Outcome.state_ok]

/-- A search keeps the tasks. -/
theorem allocUserFd_sched (pid : Nat) :
    Prog.Within (fun os os' : Os => os'.sched = os.sched) (Os.allocUserFd pid) := by
  intro os
  simp only [Os.allocUserFd, Prog.bind_apply, Os.lookupProcess]
  cases os.findProcess pid with
  | none => rfl
  | some p => cases scan : Os.scanFds p.fdTable fdTableSize (max p.nextFd userFdBase) <;> simp only [scan] <;> rfl

theorem allocUserFd_serves {os : Os} {pid : Nat} {fd : Fin fdTableSize} (found : os.findProcess pid = some p)
    (scan : Os.scanFds p.fdTable fdTableSize (max p.nextFd userFdBase) = some fd) :
    ∃ os', Os.allocUserFd pid os = .ok fd os' ∧ os'.sched = os.sched ∧
      os'.findProcess pid = some { p with nextFd := (fd + 1) % fdTableSize } := by
  obtain ⟨os', run, found', -⟩ := Os.allocUserFd_ok found scan
  have same := allocUserFd_sched pid os
  rw [run] at same
  exact ⟨os', run, same, found'⟩

/-- Two searches for a descriptor, and both ends put into their slots. -/
theorem ends_installed (id : Nat) {os : Os} {pid : Nat} {rd wr : Fin fdTableSize}
    (found : os.findProcess pid = some p)
    (scan_rd : Os.scanFds p.fdTable fdTableSize (max p.nextFd userFdBase) = some rd)
    (scan_wr : Os.scanFds p.fdTable fdTableSize (behind rd) = some wr) :
    ∃ os₁ os₂ os₃ os₄ p', Os.allocUserFd pid os = .ok rd os₁ ∧ Os.allocUserFd pid os₁ = .ok wr os₂ ∧
      Os.setFd pid rd (.pipe id .read) os₂ = .ok () os₃ ∧
      Os.setFd pid wr (.pipe id .write) os₃ = .ok () os₄ ∧ os₄.sched = os.sched ∧
      os₄.findProcess pid = some p' ∧ p'.id = p.id ∧ p'.fdTable =
        Function.update (Function.update p.fdTable rd (some (.pipe id .read))) wr (some (.pipe id .write)) := by
  obtain ⟨os₁, run₁, sched₁, found₁⟩ := allocUserFd_serves found scan_rd
  obtain ⟨os₂, run₂, sched₂, found₂⟩ := allocUserFd_serves found₁ scan_wr
  obtain ⟨os₃, run₃, found₃, -⟩ := Os.setFd_ok found₂ rd (.pipe id .read)
  obtain ⟨os₄, run₄, found₄, -⟩ := Os.setFd_ok found₃ wr (.pipe id .write)
  have sched₃ : os₃.sched = os₂.sched := by cases run₃; rfl
  have sched₄ : os₄.sched = os₃.sched := by cases run₄; rfl
  exact ⟨os₁, os₂, os₃, os₄, _, run₁, run₂, run₃, run₄,
    sched₄.trans (sched₃.trans (sched₂.trans sched₁)), found₄, rfl, rfl⟩

/-- A call that gets a pipe and a free slot succeeds, whatever becomes of the answer. -/
theorem sysPipe_serves {rd wr : Fin fdTableSize} (calls : s.Calls p) (root : s.root p.id ≠ 0)
    (place : ufdsPtr ≠ 0) (early : s.nextId < maxPipes)
    (scan_rd : Os.scanFds p.fdTable fdTableSize (max p.nextFd userFdBase) = some rd)
    (scan_wr : Os.scanFds p.fdTable fdTableSize (behind rd) = some wr) :
    ∃ s', sysPipe ufdsPtr s = .ok () s' ∧ s'.fds.pipes.table = s.taken.fds.pipes.table ∧
      (∃ p', s'.Calls p' ∧ p'.id = p.id ∧ p'.fdTable =
        Function.update (Function.update p.fdTable rd (some (.pipe s.nextId .read))) wr
          (some (.pipe s.nextId .write))) ∧
      s'.mm = (safeCopyToUser (s.root p.id) (pairBytes rd wr) ufdsPtr s.mm).state := by
  have inside : s.fds.pipes.nextPipeId % 2 ^ 32 < maxPipes := early
  obtain ⟨t, cur, found⟩ := calls.running
  have same_id := (Os.findProcess_mem found).2
  obtain ⟨os₁, os₂, os₃, os₄, p', run₁, run₂, run₃, run₄, sched, found', id_eq, entries⟩ :=
    ends_installed s.nextId calls.os.found scan_rd scan_wr
  rw [nextId] at run₃ run₄
  obtain ⟨r, answered⟩ := answer_dropped (s.root p.id) (pairBytes rd wr) ufdsPtr
    ⟨⟨os₄, s.fds.pipes.allocPipe.state⟩, s.mm, s.root⟩
  refine ⟨⟨⟨os₄, s.fds.pipes.allocPipe.state⟩, _, s.root⟩, ?_, rfl,
    ⟨p', ⟨t, by rwa [sched], by rwa [← same_id]⟩, id_eq, entries⟩, rfl⟩
  simp only [Pipes.allocPipe, dif_pos inside, Outcome.state_ok] at answered ⊢
  rw [sysPipe, caller_ok calls]
  simp only [Prog.bind_apply, onFds, FdSys.onOs, Prog.zoom, Prog.get, if_neg (not_or.mpr ⟨root, place⟩),
    FdSys.onPipes, Pipes.allocPipe, dif_pos inside, run₁, run₂, run₃, run₄, answered]
  rfl

/-! ## The contract -/

theorem contract_of_err {e : Status} (run : sysPipe ufdsPtr s = .err e s') : s.Contract ufdsPtr ↔
    (∀ p, ¬ s.Accepts p ufdsPtr) ∧ s'.fds.pipes.table = s.fds.pipes.table ∧
      s'.fds.os.processes = s.fds.os.processes := by
  constructor
  · refine fun contract => ⟨fun p accepts => ?_, contract.unchanged e s' run⟩
    obtain ⟨u, ok⟩ := contract.succeeds.mpr ⟨p, accepts⟩
    cases run.symm.trans ok
  · rintro ⟨refused, same⟩
    refine ⟨⟨?_, fun ⟨p, accepts⟩ => absurd accepts (refused p)⟩, ?_, ?_⟩
    · rintro ⟨u, ok⟩
      cases run.symm.trans ok
    · intro u ok
      cases run.symm.trans ok
    · intro e' u err
      cases run.symm.trans err
      exact same

theorem contract_of_ok (run : sysPipe ufdsPtr s = .ok () s') : s.Contract ufdsPtr ↔
    (∃ p, s.Accepts p ufdsPtr) ∧ ∃ p rd wr, s.Calls p ∧ s.Installs p ufdsPtr s' rd wr := by
  constructor
  · exact fun contract => ⟨contract.succeeds.mp ⟨s', run⟩, contract.installs s' run⟩
  · rintro ⟨accepts, installs⟩
    refine ⟨⟨fun _ => accepts, fun _ => ⟨s', run⟩⟩, ?_, ?_⟩
    · intro u ok
      cases run.symm.trans ok
      exact installs
    · intro e u err
      cases run.symm.trans err

theorem not_accepts_of_full {q : Process} (calls : s.Calls p) (full : ∀ fd, p.fdTable fd ≠ none) :
    ¬ s.Accepts q ufdsPtr := by
  intro accepts
  obtain rfl := calls.unique accepts.calls
  obtain ⟨fd, mem⟩ := Finset.card_pos.mp (Nat.zero_lt_two.trans_le accepts.descriptors)
  exact full fd (Process.mem_freeUserFds.mp mem).2

theorem contract_spent (calls : s.Calls p) (root : s.root p.id ≠ 0) (place : ufdsPtr ≠ 0)
    (late : maxPipes ≤ s.nextId) : s.Contract ufdsPtr ↔ s.Met ufdsPtr := by
  rw [contract_of_err (sysPipe_spent calls root place late)]
  constructor
  · exact fun h => .spent late h.1
  · intro met
    refine ⟨fun q accepts => ?_, taken_table_spent late, rfl⟩
    cases met with
    | noCaller nobody => exact nobody p calls
    | noPlace p' calls' zero => exact not_accepts_of_zero calls' zero accepts
    | spent _ refused => exact refused q accepts
    | crowded p' calls' full id next same => exact not_accepts_of_full calls' full accepts
    | served p' early accepts' roomy => exact absurd early (not_lt.mpr late)

theorem contract_crowded (calls : s.Calls p) (root : s.root p.id ≠ 0) (place : ufdsPtr ≠ 0)
    (early : s.nextId < maxPipes) (full : ∀ fd, p.fdTable fd ≠ none) :
    s.Contract ufdsPtr ↔ s.Met ufdsPtr := by
  rw [contract_of_err (sysPipe_crowded calls root place early full), taken_table early]
  have refused : ∀ q, ¬ s.Accepts q ufdsPtr := fun q => not_accepts_of_full calls full
  constructor
  · rintro ⟨-, same, -⟩
    refine .crowded p calls full ⟨s.nextId, early⟩ rfl ?_
    rw [← same, Function.update_self]
  · intro met
    refine ⟨refused, ?_, rfl⟩
    cases met with
    | noCaller nobody => exact absurd calls (nobody p)
    | noPlace p' calls' zero =>
      obtain rfl := calls.unique calls'
      exact absurd zero (not_or.mpr ⟨root, place⟩)
    | spent late _ => exact absurd early (not_lt.mpr late)
    | crowded p' calls' full id next same =>
      obtain rfl : id = ⟨s.nextId, early⟩ := Fin.ext next.symm
      rw [← same, Function.update_eq_self]
    | served p' _ accepts roomy => exact absurd accepts (refused p')

/-- The entries of the two ends say at which descriptors they are. -/
theorem ends_unique {entries : Fin fdTableSize → Option FdEntry} {rd wr rd' wr' : Fin fdTableSize}
    {id id' : Nat} (ne : rd' ≠ wr') (free : entries rd' = none ∧ entries wr' = none)
    (same : Function.update (Function.update entries rd' (some (.pipe id' .read))) wr'
        (some (.pipe id' .write)) =
      Function.update (Function.update entries rd (some (.pipe id .read))) wr (some (.pipe id .write))) :
    rd' = rd ∧ wr' = wr := by
  have at_rd := congrFun same rd'
  have at_wr := congrFun same wr'
  simp only [Function.update_apply, if_pos, ne, free.1, free.2] at at_rd at_wr
  grind

theorem contract_open {f : Fin fdTableSize} (calls : s.Calls p) (root : s.root p.id ≠ 0) (place : ufdsPtr ≠ 0)
    (early : s.nextId < maxPipes) (open_slot : p.fdTable f = none) :
    s.Contract ufdsPtr ↔ s.Met ufdsPtr := by
  obtain ⟨-, cursor_lt, same_scan⟩ := p.cursor_spec
  obtain ⟨rd, scan_rd, free_rd, near_rd⟩ := scanFds_nearest cursor_lt open_slot
  obtain ⟨wr, scan_wr, free_wr, near_wr⟩ := scanFds_nearest (behind_lt rd) open_slot
  obtain ⟨s', run, table, ⟨p', calls', id_eq, entries⟩, mm⟩ :=
    sysPipe_serves calls root place early (same_scan.trans scan_rd) scan_wr
  rw [contract_of_ok run]
  have room := fun two => Process.roomy_iff two free_rd free_wr near_rd near_wr
  constructor
  · rintro ⟨⟨q, accepts⟩, q', rd', wr', calls_q', installs⟩
    obtain rfl := calls.unique accepts.calls
    obtain rfl := calls.unique calls_q'
    obtain ⟨id, -, u, calls_u, -, entries_u⟩ := installs.pipe
    obtain rfl := calls'.unique calls_u
    obtain ⟨rfl, rfl⟩ := ends_unique installs.distinct installs.free (entries_u.symm.trans entries)
    exact .served _ early accepts ((room accepts.descriptors).mp ⟨installs.distinct, installs.user⟩)
  · intro met
    cases met with
    | noCaller nobody => exact absurd calls (nobody p)
    | noPlace q calls_q zero =>
      obtain rfl := calls.unique calls_q
      exact absurd zero (not_or.mpr ⟨root, place⟩)
    | spent late _ => exact absurd early (not_lt.mpr late)
    | crowded q calls_q full =>
      obtain rfl := calls.unique calls_q
      exact absurd open_slot (full f)
    | served q _ accepts roomy =>
      obtain rfl := calls.unique accepts.calls
      obtain ⟨distinct, user⟩ := (room accepts.descriptors).mpr roomy
      have new : s'.fds.pipes.table ⟨s.nextId, early⟩ = some newPipe := by
        rw [table, taken_table early, Function.update_self]
      refine ⟨⟨_, accepts⟩, _, rd, wr, calls, distinct, user, ⟨free_rd, free_wr⟩,
        ⟨⟨s.nextId, early⟩, new, p', calls', id_eq, entries⟩, ?_⟩
      obtain ⟨mm', copied⟩ := accepts.writable.copies (pairBytes rd wr) rfl
      rw [mm, copied, Outcome.state_ok]

theorem contract_iff_met (s : PipeSys) (ufdsPtr : Nat) : s.Contract ufdsPtr ↔ s.Met ufdsPtr := by
  by_cases caller : ∃ p, s.Calls p
  · obtain ⟨p, calls⟩ := caller
    by_cases zero : s.root p.id = 0 ∨ ufdsPtr = 0
    · rw [contract_of_err (sysPipe_noPlace calls zero)]
      exact iff_of_true ⟨fun q => not_accepts_of_zero calls zero, rfl, rfl⟩ (.noPlace p calls zero)
    · obtain ⟨root, place⟩ := not_or.mp zero
      rcases Nat.lt_or_ge s.nextId maxPipes with early | late
      · by_cases full : ∀ fd, p.fdTable fd ≠ none
        · exact contract_crowded calls root place early full
        · obtain ⟨f, open_slot⟩ := not_forall_not.mp full
          exact contract_open calls root place early open_slot
      · exact contract_spent calls root place late
  · rw [contract_of_err (sysPipe_nobody (not_exists.mp caller))]
    exact iff_of_true ⟨fun q accepts => caller ⟨q, accepts.calls⟩, rfl, rfl⟩ (.noCaller (not_exists.mp caller))

end PipeSys

/-! ## Runs -/

/-- A call of `sys_pipe`, another step of the processes and their descriptors, or whatever happens to the
memory and to the tables. -/
inductive PipeSysOp where
  | pipe (ufdsPtr : Nat)
  | fds (op : FdOp)
  | memory (mm : Mm) (root : Nat → Nat)

namespace PipeSysOp

def perform : PipeSysOp → PipeSysM Unit
  | .pipe ufdsPtr => PipeSys.sysPipe ufdsPtr
  | .fds op => PipeSys.onFds op.perform
  | .memory mm root => Prog.modify fun s => { s with mm, root }

def Enabled (s : PipeSys) : PipeSysOp → Prop
  | .fds (.pipe _ _) => False
  | .fds op => op.Enabled s.fds
  | _ => True

def system : Stepper PipeSys Status PipeSysOp := ⟨perform, Enabled⟩

/-- Calls of `sys_pipe` meet the condition. -/
def Meets (s : PipeSys) : PipeSysOp → Prop
  | .pipe ufdsPtr => s.Met ufdsPtr
  | _ => True

/-- Calls of `sys_pipe` keep the contract. -/
def Keeps (s : PipeSys) : PipeSysOp → Prop
  | .pipe ufdsPtr => s.Contract ufdsPtr
  | _ => True

theorem keeps_iff_meets (s : PipeSys) (op : PipeSysOp) : op.Keeps s ↔ op.Meets s := by
  cases op with
  | pipe ufdsPtr => exact s.contract_iff_met ufdsPtr
  | fds op => exact Iff.rfl
  | memory mm root => exact Iff.rfl

end PipeSysOp

namespace PipeSys

/-- A call of `sys_pipe` keeps its contract exactly in the states of `Met`, and a run keeps it at every
call exactly if all its calls are made in such states. -/
theorem pipe_contract_iff (init s : PipeSys) (ufdsPtr : Nat) : (s.Contract ufdsPtr ↔ s.Met ufdsPtr) ∧
    (PipeSysOp.system.Run (fun s op => op.Keeps s) init s ↔
      PipeSysOp.system.Run (fun s op => op.Meets s) init s) := by
  refine ⟨s.contract_iff_met ufdsPtr, fun run => ?_, fun run => ?_⟩
  · exact run.mono fun u op => (op.keeps_iff_meets u).mp
  · exact run.mono fun u op => (op.keeps_iff_meets u).mpr

/-- A memory manager without frames, over memory that is all zero. -/
def blank : Mm := ⟨fun _ => 0, 0, 0, 0, fun _ => .free, [], ⟨Slots.empty, 0⟩, 0, []⟩

def boot : PipeSys := ⟨FdSys.boot, blank, fun _ => 0⟩

/-- A process runs, with tables in which nothing is mapped. -/
def unmapped : List PipeSysOp :=
  [.fds (.proc (.launch .done)), .fds (.proc (.task .run)), .memory blank fun _ => 4096]

/-- A call succeeds although its answer cannot be copied. -/
theorem answer_lost : ∃ s, PipeSysOp.system.Run (fun _ _ => True) boot s ∧ ¬ s.Contract 8 := by
  refine ⟨PipeSysOp.system.after boot unmapped, Stepper.Run.start.follow
    ⟨trivial, trivial, by decide +kernel, trivial, rfl, by decide +kernel, trivial, trivial, by decide +kernel,
      trivial⟩, fun contract => ?_⟩
  have serves : (sysPipe 8 (PipeSysOp.system.after boot unmapped)).value? = some () := by decide +kernel
  obtain ⟨p, accepts⟩ := contract.succeeds.mp ⟨_, Outcome.eq_ok_of_value? serves⟩
  obtain ⟨mm, copied⟩ := accepts.writable.copies (List.replicate 8 0) List.length_replicate
  have nowhere : (safeCopyToUser 4096 (List.replicate 8 0) 8 blank).value? = none := by decide +kernel
  have arrived : safeCopyToUser 4096 (List.replicate 8 0) 8 blank = .ok () mm := copied
  rw [arrived] at nowhere
  cases nowhere

end PipeSys

end CapsuleOS
