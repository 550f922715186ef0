import CapsuleOS.Task.UserMemory

/-!
# Working directories

`sys_chdir` and `sys_getcwd` with the 128-byte buffer between them. A longer path is cut to the buffer and
a shorter buffer gets the beginning of the path, both without an error.
-/
namespace CapsuleOS

open Lib

def cwdMax : Nat := 128

/-- The buffer of a process, and how much of it is in use. -/
structure Cwd where
  buf : Fin cwdMax → UInt8
  len : Nat
  len_le : len ≤ cwdMax

namespace Cwd

/-- The root directory. -/
def initial : Cwd := ⟨fun i => if i.val = 0 then 47 else 0, 1, by decide⟩

/-- The beginning of the buffer. -/
def front (c : Cwd) (n : Nat) : List UInt8 := (List.ofFn c.buf).take n

/-- Copy `n` bytes of a buffer that held zeros before `bytes` were written to it. -/
def set (c : Cwd) (bytes : List UInt8) (n : Nat) (le : n ≤ cwdMax) : Cwd where
  buf i := if i.val < n then bytes.getD i 0 else c.buf i
  len := n
  len_le := le

theorem set_length (c : Cwd) {bytes : List UInt8} {n : Nat} (le : n ≤ cwdMax) (len : bytes.length = n) :
    c.set bytes n le = c.set bytes bytes.length (len.trans_le le) := by
  subst len
  rfl

theorem front_set (c : Cwd) {bytes : List UInt8} {n : Nat} (le : n ≤ cwdMax) (len : bytes.length = n) :
    (c.set bytes n le).front n = bytes := by
  refine List.ext_getElem (by simp [front, len, le]) fun i lt lt' => ?_
  simp only [front, set, List.getElem_take, List.getElem_ofFn, if_pos (len ▸ lt')]
  rw [List.getD_eq_getElem?_getD, List.getElem?_eq_getElem lt', Option.getD_some]

end Cwd

/-- The processes with their memory, and the working directory of the process with a given id. It begins
as `Cwd.initial`. -/
structure CwdSys where
  sys : Sys
  cwd : Nat → Cwd

abbrev CwdM := Prog CwdSys Status

namespace CwdSys

def onOs {α : Type} (m : OsM α) : CwdM α := Prog.zoom (·.sys.os) (fun os s => { s with sys.os := os }) m

def onMm {α : Type} (m : MmM α) : CwdM α := Prog.zoom (·.sys.mm) (fun mm s => { s with sys.mm := mm }) m

def setCwd (pid : Nat) (cwd : Cwd) (s : CwdSys) : CwdSys := { s with cwd := Function.update s.cwd pid cwd }

def root (s : CwdSys) (pid : Nat) : Nat := (s.sys.space pid).tree.l0Pa

def sysGetcwd (bufPtr bufLen : Nat) : CwdM Nat :=
  if bufPtr = 0 then Prog.throw .invalidArgs
  else do
    let caller ← onOs Os.currentProcessId
    let _ ← onOs (Os.lookupProcess caller)
    let s ← Prog.get
    let copyLen := min (s.cwd caller).len bufLen
    if copyLen = 0 then return 0
    else if s.root caller = 0 then Prog.throw .invalidArgs
    else
      onMm (safeCopyToUser (s.root caller) ((s.cwd caller).front copyLen) bufPtr)
      return copyLen

def sysChdir (pathPtr pathLen : Nat) : CwdM Nat :=
  if pathPtr = 0 ∨ pathLen = 0 then Prog.throw .invalidArgs
  else do
    let caller ← onOs Os.currentProcessId
    let _ ← onOs (Os.lookupProcess caller)
    let s ← Prog.get
    if s.root caller = 0 then Prog.throw .invalidArgs
    else
      let pathBuf ← onMm (safeCopyFromUser (s.root caller) pathPtr (min pathLen cwdMax))
      Prog.modify (setCwd caller ((s.cwd caller).set pathBuf (min pathLen cwdMax) (Nat.min_le_right _ _)))
      return 0

variable {s s' : CwdSys} {p : Process} {pathPtr pathLen bufPtr bufLen : Nat}

@[simp] theorem setCwd_self (pid : Nat) (cwd : Cwd) (s : CwdSys) : (s.setCwd pid cwd).cwd pid = cwd :=
  Function.update_self _ _ _

/-! ## Single calls -/

theorem onOs_ok {α : Type} {m : OsM α} {a : α} (run : m s.sys.os = .ok a s.sys.os) : onOs m s = .ok a s :=
  Prog.zoom_ok run

theorem onOs_err {α : Type} {m : OsM α} {e : Status} (run : m s.sys.os = .err e s.sys.os) :
    onOs m s = .err e s := Prog.zoom_err run

/-- The lookups at the start of a call, by a caller that exists. -/
theorem caller_ok {α : Type} (calls : s.sys.os.Calls p) (f : Nat → Process → CwdM α) :
    (do
      let caller ← onOs Os.currentProcessId
      let p ← onOs (Os.lookupProcess caller)
      f caller p : CwdM α) s = f p.id p s := by
  rw [Prog.bind_ok (onOs_ok calls.current), Prog.bind_ok (onOs_ok calls.lookup)]

theorem caller_err {α : Type} (nobody : ∀ p, ¬ s.sys.os.Calls p) (f : Nat → Process → CwdM α) :
    (do
      let caller ← onOs Os.currentProcessId
      let p ← onOs (Os.lookupProcess caller)
      f caller p : CwdM α) s = .err .notFound s := by
  rcases Os.lookup_fails nobody with run | ⟨pid, run, run'⟩
  · exact Prog.bind_err (onOs_err run)
  · rw [Prog.bind_ok (onOs_ok run)]
    exact Prog.bind_err (onOs_err run')

/-- A call of `sys_chdir` fails without effect, or it has read as much of the path as fits. -/
theorem sysChdir_cases (s : CwdSys) (pathPtr pathLen : Nat) :
    (∃ e, sysChdir pathPtr pathLen s = .err e s) ∨
    ∃ p bytes, pathPtr ≠ 0 ∧ pathLen ≠ 0 ∧ s.sys.os.Calls p ∧
      safeCopyFromUser (s.root p.id) pathPtr (min pathLen cwdMax) s.sys.mm = .ok bytes s.sys.mm ∧
      bytes.length = min pathLen cwdMax ∧ sysChdir pathPtr pathLen s =
        .ok 0 (s.setCwd p.id ((s.cwd p.id).set bytes (min pathLen cwdMax) (Nat.min_le_right _ _))) := by
  unfold sysChdir
  split_ifs with bad
  · exact .inl ⟨_, rfl⟩
  by_cases caller : ∃ p, s.sys.os.Calls p
  · obtain ⟨p, calls⟩ := caller
    rw [caller_ok calls]
    by_cases zero : s.root p.id = 0
    · simp only [Prog.bind_apply, Prog.get, if_pos zero]
      exact .inl ⟨_, rfl⟩
    · simp only [Prog.bind_apply, Prog.get, if_neg zero]
      rcases safeCopyFromUser_cases (s.root p.id) pathPtr (min pathLen cwdMax) s.sys.mm with
        ⟨bytes, run, len⟩ | run
      · have read : onMm (safeCopyFromUser (s.root p.id) pathPtr (min pathLen cwdMax)) s = .ok bytes s :=
          Prog.zoom_ok run
        exact .inr ⟨p, bytes, (not_or.mp bad).1, (not_or.mp bad).2, calls, run, len, by simp only [read]; rfl⟩
      · have failed : onMm (safeCopyFromUser (s.root p.id) pathPtr (min pathLen cwdMax)) s =
            .err .invalidArgs s := Prog.zoom_err run
        exact .inl ⟨.invalidArgs, by simp only [failed]⟩
  · exact .inl ⟨_, caller_err (not_exists.mp caller) _⟩

theorem sysChdir_ok {bytes : List UInt8} (calls : s.sys.os.Calls p) (ptr : pathPtr ≠ 0) (len : pathLen ≠ 0)
    (read : safeCopyFromUser (s.root p.id) pathPtr (min pathLen cwdMax) s.sys.mm = .ok bytes s.sys.mm) :
    sysChdir pathPtr pathLen s =
      .ok 0 (s.setCwd p.id ((s.cwd p.id).set bytes (min pathLen cwdMax) (Nat.min_le_right _ _))) := by
  have root : s.root p.id ≠ 0 := by
    intro zero
    rw [zero] at read
    cases read
  have read : onMm (safeCopyFromUser (s.root p.id) pathPtr (min pathLen cwdMax)) s = .ok bytes s :=
    Prog.zoom_ok read
  rw [sysChdir, if_neg (not_or.mpr ⟨ptr, len⟩), caller_ok calls]
  simp only [Prog.bind_apply, Prog.get, if_neg root, read]
  rfl

theorem sysGetcwd_ok {mm : Mm} (calls : s.sys.os.Calls p) (ptr : bufPtr ≠ 0)
    (some_byte : min (s.cwd p.id).len bufLen ≠ 0)
    (wrote : safeCopyToUser (s.root p.id) ((s.cwd p.id).front (min (s.cwd p.id).len bufLen)) bufPtr
      s.sys.mm = .ok () mm) :
    sysGetcwd bufPtr bufLen s = .ok (min (s.cwd p.id).len bufLen) { s with sys.mm := mm } := by
  have root : s.root p.id ≠ 0 := by
    intro zero
    rw [zero] at wrote
    cases wrote
  have wrote : onMm (safeCopyToUser (s.root p.id) ((s.cwd p.id).front (min (s.cwd p.id).len bufLen))
      bufPtr) s = .ok () { s with sys.mm := mm } := Prog.zoom_ok wrote
  rw [sysGetcwd, if_neg ptr, caller_ok calls]
  simp only [Prog.bind_apply, Prog.get, if_neg some_byte, if_neg root, wrote]
  rfl

theorem sysGetcwd_fails {mm : Mm} {e : Status} (calls : s.sys.os.Calls p) (ptr : bufPtr ≠ 0)
    (some_byte : min (s.cwd p.id).len bufLen ≠ 0)
    (failed : safeCopyToUser (s.root p.id) ((s.cwd p.id).front (min (s.cwd p.id).len bufLen)) bufPtr
      s.sys.mm = .err e mm) : ∃ e s', sysGetcwd bufPtr bufLen s = .err e s' := by
  rw [sysGetcwd, if_neg ptr, caller_ok calls]
  by_cases root : s.root p.id = 0
  · simp only [Prog.bind_apply, Prog.get, if_neg some_byte, if_pos root]
    exact ⟨_, _, rfl⟩
  · have failed : onMm (safeCopyToUser (s.root p.id) ((s.cwd p.id).front (min (s.cwd p.id).len bufLen))
        bufPtr) s = .err e { s with sys.mm := mm } := Prog.zoom_err failed
    simp only [Prog.bind_apply, Prog.get, if_neg some_byte, if_neg root, failed]
    exact ⟨_, _, rfl⟩

theorem sysGetcwd_empty (calls : s.sys.os.Calls p) (ptr : bufPtr ≠ 0)
    (no_byte : min (s.cwd p.id).len bufLen = 0) : sysGetcwd bufPtr bufLen s = .ok 0 s := by
  rw [sysGetcwd, if_neg ptr, caller_ok calls]
  simp only [Prog.bind_apply, Prog.get, if_pos no_byte]
  rfl

/-- The three ends of a call by a caller with a buffer. -/
theorem sysGetcwd_value {n : Nat} (calls : s.sys.os.Calls p) (ptr : bufPtr ≠ 0)
    (run : sysGetcwd bufPtr bufLen s = .ok n s') : n = min (s.cwd p.id).len bufLen := by
  by_cases no_byte : min (s.cwd p.id).len bufLen = 0
  · cases (sysGetcwd_empty calls ptr no_byte).symm.trans run
    exact no_byte.symm
  · rcases safeCopyToUser_cases (s.root p.id) ((s.cwd p.id).front (min (s.cwd p.id).len bufLen)) bufPtr
      s.sys.mm with ⟨mm, wrote⟩ | ⟨mm, failed⟩
    · cases (sysGetcwd_ok calls ptr no_byte wrote).symm.trans run
      rfl
    · obtain ⟨e, u, failed⟩ := sysGetcwd_fails calls ptr no_byte failed
      cases failed.symm.trans run

end CwdSys

/-! ## Steps -/

/-- The two calls, and whatever else happens to the processes and their memory. -/
inductive CwdOp where
  | chdir (pathPtr pathLen : Nat)
  | getcwd (bufPtr bufLen : Nat)
  | other (sys : Sys)

namespace CwdOp

def perform : CwdOp → CwdM Unit
  | .chdir pathPtr pathLen => do let _ ← CwdSys.sysChdir pathPtr pathLen
  | .getcwd bufPtr bufLen => do let _ ← CwdSys.sysGetcwd bufPtr bufLen
  | .other sys => Prog.modify fun s => { s with sys }

def system : Stepper CwdSys Status CwdOp := ⟨perform, fun _ _ => True⟩

/-- Not a call of `sys_chdir` by the process. -/
def Elsewhere (pid : Nat) (s : CwdSys) : CwdOp → Prop
  | .chdir _ _ => ∀ p, s.sys.os.Calls p → p.id ≠ pid
  | _ => True

end CwdOp

namespace CwdSys

variable {s s' : CwdSys} {p : Process} {pathPtr pathLen bufPtr bufLen pid : Nat}

theorem sysGetcwd_keeps (bufPtr bufLen : Nat) :
    Prog.Within (fun s s' : CwdSys => s'.cwd = s.cwd) (sysGetcwd bufPtr bufLen) := by
  intro s
  by_cases ptr : bufPtr = 0
  · rw [sysGetcwd, if_pos ptr]
    rfl
  by_cases caller : ∃ p, s.sys.os.Calls p
  · obtain ⟨p, calls⟩ := caller
    by_cases no_byte : min (s.cwd p.id).len bufLen = 0
    · rw [sysGetcwd_empty calls ptr no_byte]
      rfl
    · rw [sysGetcwd, if_neg ptr, caller_ok calls]
      by_cases root : s.root p.id = 0
      · simp only [Prog.bind_apply, Prog.get, if_neg no_byte, if_pos root]
        rfl
      · simp only [Prog.bind_apply, Prog.get, if_neg no_byte, if_neg root, onMm, Prog.zoom]
        rcases safeCopyToUser_cases (s.root p.id) ((s.cwd p.id).front (min (s.cwd p.id).len bufLen)) bufPtr
          s.sys.mm with ⟨mm, wrote⟩ | ⟨mm, failed⟩
        · simp only [wrote]
          rfl
        · simp only [failed]
          rfl
  · rw [sysGetcwd, if_neg ptr, caller_err (not_exists.mp caller)]
    rfl

/-- A working directory is kept by everything but its own process. -/
theorem cwd_kept (run : CwdOp.system.Run (CwdOp.Elsewhere pid) s s') : s'.cwd pid = s.cwd pid := by
  refine run.invariant (I := fun u => u.cwd pid = s.cwd pid) rfl fun op u u' kept elsewhere step => ?_
  rw [← kept]
  cases op with
  | chdir pathPtr pathLen =>
    have ended : (sysChdir pathPtr pathLen u).Ends u' := Prog.map_ends step.ran
    rcases sysChdir_cases u pathPtr pathLen with ⟨e, run⟩ | ⟨p, bytes, _, _, calls, _, _, run⟩
    · rw [run] at ended
      cases ended
      rfl
    · rw [run] at ended
      cases ended
      exact Function.update_of_ne (elsewhere p calls).symm _ _
  | getcwd bufPtr bufLen =>
    have ended : (sysGetcwd bufPtr bufLen u).Ends u' := Prog.map_ends step.ran
    rw [← ended.state_eq, sysGetcwd_keeps bufPtr bufLen u]
  | other sys =>
    cases step.ran
    rfl

/-! ## The round trip -/

/-- Whenever the process asks, with a place for `path` that takes it, it gets just that path. -/
def GivesBack (pid : Nat) (path : List UInt8) (s : CwdSys) : Prop :=
  ∀ p, s.sys.os.Calls p → p.id = pid → ∀ bufPtr bufLen mm, bufPtr ≠ 0 → path.length ≤ bufLen →
    safeCopyToUser (s.root pid) path bufPtr s.sys.mm = .ok () mm →
    sysGetcwd bufPtr bufLen s = .ok path.length { s with sys.mm := mm }

/-- A call that fails changes no working directory; one that returns has found a path of the given length,
and until the process changes its directory again it gets that path back. -/
structure RoundTrip (s : CwdSys) (pathPtr pathLen : Nat) : Prop where
  failed : ∀ e s₁, sysChdir pathPtr pathLen s = .err e s₁ → s₁.cwd = s.cwd
  returned : ∀ n s₁, sysChdir pathPtr pathLen s = .ok n s₁ → ∃ p path, s.sys.os.Calls p ∧
    path.length = pathLen ∧
    safeCopyFromUser (s.root p.id) pathPtr pathLen s.sys.mm = .ok path s.sys.mm ∧
    ∀ s₂, CwdOp.system.Run (CwdOp.Elsewhere p.id) s₁ s₂ → s₂.GivesBack p.id path

/-- The path fits in the buffer, or nothing can be read of it. -/
def PathFits (s : CwdSys) (pathPtr pathLen : Nat) : Prop :=
  pathLen ≤ cwdMax ∨ pathPtr = 0 ∨ ∀ p, s.sys.os.Calls p → ∀ bytes,
    safeCopyFromUser (s.root p.id) pathPtr cwdMax s.sys.mm ≠ .ok bytes s.sys.mm

/-- A caller whose buffer is shorter than its working directory gets an error. -/
def ReportsShort (s : CwdSys) (bufPtr bufLen : Nat) : Prop :=
  ∀ p, s.sys.os.Calls p → bufLen < (s.cwd p.id).len → ∃ e s', sysGetcwd bufPtr bufLen s = .err e s'

/-- The buffer is long enough, or it takes nothing of the path. -/
def BufferFits (s : CwdSys) (bufPtr bufLen : Nat) : Prop :=
  ∀ p, s.sys.os.Calls p → (s.cwd p.id).len ≤ bufLen ∨ bufPtr = 0 ∨ (bufLen ≠ 0 ∧ ∀ mm,
    safeCopyToUser (s.root p.id) ((s.cwd p.id).front bufLen) bufPtr s.sys.mm ≠ .ok () mm)

theorem givesBack_of_set {c : Cwd} {path : List UInt8} (le : path.length ≤ cwdMax) (nonempty : path ≠ [])
    (holds : s.cwd pid = c.set path path.length le) : s.GivesBack pid path := by
  rintro p calls rfl bufPtr bufLen mm ptr fits wrote
  have len : (s.cwd p.id).len = path.length := by
    rw [holds]
    rfl
  have all : min (s.cwd p.id).len bufLen = path.length := by omega
  have front : (s.cwd p.id).front path.length = path := by rw [holds, c.front_set le rfl]
  have some_byte : path.length ≠ 0 := fun zero => nonempty (List.length_eq_zero_iff.mp zero)
  have given : sysGetcwd bufPtr bufLen s = .ok _ { s with sys.mm := mm } :=
    sysGetcwd_ok calls ptr (by rwa [all]) (by rwa [all, front])
  rwa [all] at given

theorem roundTrip_iff_fits (s : CwdSys) (pathPtr pathLen : Nat) :
    s.RoundTrip pathPtr pathLen ↔ s.PathFits pathPtr pathLen := by
  constructor
  · intro trip
    by_contra long
    simp only [PathFits, not_or, not_forall, not_not, not_le] at long
    obtain ⟨long, ptr, p, calls, bytes, read⟩ := long
    have cut : min pathLen cwdMax = cwdMax := Nat.min_eq_right long.le
    have done : sysChdir pathPtr pathLen s = .ok 0 _ := sysChdir_ok calls ptr (by omega) (by rwa [cut])
    obtain ⟨q, path, calls_q, len, whole, following⟩ := trip.returned _ _ done
    obtain rfl := calls.unique calls_q
    -- the path itself is a buffer that takes the path
    have given := following _ .start q calls_q rfl pathPtr pathLen s.sys.mm ptr len.le
      (safeCopyToUser_back (by rwa [len]))
    have value := sysGetcwd_value (s := s.setCwd _ _) calls_q ptr given
    simp only [setCwd_self, Cwd.set] at value
    omega
  · intro fits
    refine ⟨fun e s₁ run => ?_, fun n s₁ run => ?_⟩
    · rcases sysChdir_cases s pathPtr pathLen with ⟨e', failed⟩ | ⟨p, bytes, _, _, _, _, _, done⟩
      · cases failed.symm.trans run
        rfl
      · cases done.symm.trans run
    · rcases sysChdir_cases s pathPtr pathLen with ⟨e', failed⟩ | ⟨p, bytes, ptr, some_byte, calls, read, len, done⟩
      · cases failed.symm.trans run
      · cases done.symm.trans run
        have short : pathLen ≤ cwdMax := by
          rcases fits with short | zero | unread
          · exact short
          · exact absurd zero ptr
          · by_contra long
            have cut : min pathLen cwdMax = cwdMax := Nat.min_eq_right (not_le.mp long).le
            exact unread p calls bytes (by rwa [cut] at read)
        have all : min pathLen cwdMax = pathLen := Nat.min_eq_left short
        refine ⟨p, bytes, calls, len.trans all, by rwa [all] at read, fun s₂ rest => ?_⟩
        have nonempty : bytes ≠ [] := by
          rintro rfl
          exact some_byte (len.trans all).symm
        refine givesBack_of_set (c := s.cwd p.id) ((len.trans all).trans_le short) nonempty ?_
        rw [cwd_kept rest, setCwd_self, Cwd.set_length _ _ len]

theorem reportsShort_iff_fits (s : CwdSys) (bufPtr bufLen : Nat) :
    s.ReportsShort bufPtr bufLen ↔ s.BufferFits bufPtr bufLen := by
  refine forall_congr' fun p => forall_congr' fun calls => ?_
  by_cases short : bufLen < (s.cwd p.id).len
  · have all : min (s.cwd p.id).len bufLen = bufLen := Nat.min_eq_right short.le
    constructor
    · intro reports
      obtain ⟨e, s', run⟩ := reports short
      by_cases ptr : bufPtr = 0
      · exact .inr (.inl ptr)
      · refine .inr (.inr ⟨fun empty => ?_, fun mm wrote => ?_⟩)
        · cases (sysGetcwd_empty calls ptr (all.trans empty)).symm.trans run
        · by_cases empty : bufLen = 0
          · cases (sysGetcwd_empty calls ptr (all.trans empty)).symm.trans run
          · cases (sysGetcwd_ok calls ptr (by rwa [all]) (by rwa [all])).symm.trans run
    · rintro (long | zero | ⟨some_byte, nowhere⟩) -
      · exact absurd short (not_lt.mpr long)
      · exact ⟨.invalidArgs, s, by rw [sysGetcwd, if_pos zero]; rfl⟩
      · by_cases ptr : bufPtr = 0
        · exact ⟨.invalidArgs, s, by rw [sysGetcwd, if_pos ptr]; rfl⟩
        rcases safeCopyToUser_cases (s.root p.id) ((s.cwd p.id).front bufLen) bufPtr s.sys.mm with
          ⟨mm, wrote⟩ | ⟨mm, failed⟩
        · exact absurd wrote (nowhere mm)
        · exact sysGetcwd_fails calls ptr (by rwa [all]) (by rwa [all])
  · exact iff_of_true (fun lt => absurd lt short) (.inl (not_lt.mp short))

/-- A path comes back from the kernel exactly if it fits in its buffer or cannot be read, and a buffer that
is too short is reported exactly if nothing can be put into it anyway. -/
theorem working_directory_iff (s : CwdSys) (pathPtr pathLen bufPtr bufLen : Nat) :
    (s.RoundTrip pathPtr pathLen ↔ s.PathFits pathPtr pathLen) ∧
    (s.ReportsShort bufPtr bufLen ↔ s.BufferFits bufPtr bufLen) :=
  ⟨s.roundTrip_iff_fits pathPtr pathLen, s.reportsShort_iff_fits bufPtr bufLen⟩

/-- Memory in which every word is a valid descriptor of a block at 0. -/
def blocks : Mem := fun x => if x % 8 = 0 then 1 else 0

/-- A process that runs over such tables. -/
def flat : CwdSys where
  sys := ⟨ProcOp.system.after Os.boot [.launch .done, .task .run],
    ⟨blocks, 0, 0, 0, fun _ => .free, [], ⟨Slots.empty, 0⟩, 0, []⟩,
    fun _ => { Space.newDummy with tree := ⟨4096, [], 0, true⟩ }⟩
  cwd _ := Cwd.initial

theorem flat_calls : ∃ p, flat.sys.os.Calls p := ⟨_, ⟨_, rfl, rfl⟩⟩

/-- A path of 129 bytes does not come back, and an empty buffer is not reported. -/
theorem long_path_lost : ¬ flat.RoundTrip 8 129 ∧ ¬ flat.ReportsShort 8 0 := by
  obtain ⟨p, calls⟩ := flat_calls
  rw [roundTrip_iff_fits, reportsShort_iff_fits]
  refine ⟨fun fits => ?_, fun fits => ?_⟩
  · have read : (safeCopyFromUser 4096 8 128 flat.sys.mm).value? = some (blocks.load 8 128) := by
      decide +kernel
    rcases fits with short | zero | unread
    · exact absurd short (by decide)
    · exact absurd zero (by decide)
    · rcases safeCopyFromUser_cases 4096 8 128 flat.sys.mm with ⟨bytes, run, -⟩ | run
      · exact unread p calls bytes run
      · rw [run] at read
        cases read
  · rcases fits p calls with long | zero | ⟨some_byte, -⟩
    · exact absurd long (show ¬ 1 ≤ 0 by decide)
    · exact absurd zero (by decide)
    · exact some_byte rfl

end CwdSys

end CapsuleOS
