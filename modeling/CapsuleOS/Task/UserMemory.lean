import CapsuleOS.Task.Launch
import CapsuleOS.Task.ProcessRuns

/-!
# Callers and their memory

Most calls begin by looking up the process of the running thread. What they exchange with it is copied page
by page through its tables; a copy fails at the first page that the tables do not have, and what was
copied before stays.
-/
namespace CapsuleOS

open Lib

/-! ## Callers -/

namespace Os

variable {s : Os} {p q : Process}

/-- The process of the running thread. -/
structure Calls (s : Os) (p : Process) : Prop where
  running : ∃ t, s.sched.getCurrentThread = some t ∧ s.findProcess t.processId = some p

theorem Calls.unique (h : s.Calls p) (h' : s.Calls q) : q = p := by
  obtain ⟨t, cur, found⟩ := h.running
  obtain ⟨t', cur', found'⟩ := h'.running
  cases cur.symm.trans cur'
  exact Option.some.inj (found'.symm.trans found)

theorem Calls.current (h : s.Calls p) : currentProcessId s = .ok p.id s := by
  obtain ⟨t, cur, found⟩ := h.running
  rw [(findProcess_mem found).2]
  simp only [currentProcessId, cur]

theorem Calls.found (h : s.Calls p) : s.findProcess p.id = some p := by
  obtain ⟨t, cur, found⟩ := h.running
  rwa [(findProcess_mem found).2]

theorem Calls.lookup (h : s.Calls p) : lookupProcess p.id s = .ok p s := by
  simp only [lookupProcess, h.found]

/-- Without a caller, the lookup of the thread or that of its process fails. -/
theorem lookup_fails (nobody : ∀ p, ¬ s.Calls p) : currentProcessId s = .err .notFound s ∨
    ∃ pid, currentProcessId s = .ok pid s ∧ lookupProcess pid s = .err .notFound s := by
  cases cur : s.sched.getCurrentThread with
  | none => exact .inl (by simp only [currentProcessId, cur])
  | some t =>
    refine .inr ⟨t.processId, by simp only [currentProcessId, cur], ?_⟩
    cases found : s.findProcess t.processId with
    | none => simp only [lookupProcess, found]
    | some p => exact absurd ⟨t, cur, found⟩ (nobody p)

end Os

/-! ## Copies to user memory -/

theorem copyToUserLoop_cases (l0Pa : Nat) (src : List UInt8) (dest fuel copied : Nat) (mm : Mm) :
    (∃ mm', copyToUserLoop l0Pa src dest fuel copied mm = .ok () mm') ∨
      ∃ mm', copyToUserLoop l0Pa src dest fuel copied mm = .err .invalidArgs mm' := by
  induction fuel generalizing copied mm with
  | zero => exact .inl ⟨mm, rfl⟩
  | succ fuel ih =>
    by_cases more : copied < src.length
    · simp only [copyToUserLoop, if_pos more, Prog.bind_apply, Prog.get]
      cases translateUserVa mm.mem l0Pa (wadd dest copied) with
      | none => exact .inr ⟨mm, rfl⟩
      | some pa => exact ih _ _
    · simp only [copyToUserLoop, if_neg more]
      exact .inl ⟨mm, rfl⟩

/-- A copy to a process arrives, or it fails with the one error. -/
theorem safeCopyToUser_cases (l0Pa : Nat) (src : List UInt8) (dest : Nat) (mm : Mm) :
    (∃ mm', safeCopyToUser l0Pa src dest mm = .ok () mm') ∨
      ∃ mm', safeCopyToUser l0Pa src dest mm = .err .invalidArgs mm' := by
  unfold safeCopyToUser
  split_ifs
  · exact .inr ⟨mm, rfl⟩
  · exact copyToUserLoop_cases _ _ _ _ _ _

/-! ## Copies from user memory -/

/-- Read page by page; every round moves at least one byte, so the length is fuel enough. -/
def copyFromUserLoop (l0Pa src len : Nat) : Nat → Nat → MmM (List UInt8)
  | 0, _ => pure []
  | fuel + 1, copied => do
    if copied < len then
      let s ← Prog.get
      let va := wadd src copied
      match translateUserVa s.mem l0Pa va with
      | none => Prog.throw .invalidArgs
      | some pa =>
        let chunk := min (len - copied) (4096 - va % 4096)
        let rest ← copyFromUserLoop l0Pa src len fuel (copied + chunk)
        return s.mem.load pa chunk ++ rest
    else pure []

/-- The bytes that arrive in the buffer of the caller. -/
def safeCopyFromUser (l0Pa src len : Nat) : MmM (List UInt8) :=
  if l0Pa = 0 then Prog.throw .invalidArgs else copyFromUserLoop l0Pa src len len 0

theorem chunk_pos {len copied va : Nat} (more : copied < len) :
    0 < min (len - copied) (4096 - va % 4096) := by
  have := Nat.mod_lt va (show 0 < 4096 by decide)
  omega

theorem copyFromUserLoop_cases (l0Pa src len fuel copied : Nat) (mm : Mm) (enough : len ≤ copied + fuel) :
    (∃ bytes, copyFromUserLoop l0Pa src len fuel copied mm = .ok bytes mm ∧ bytes.length = len - copied) ∨
      copyFromUserLoop l0Pa src len fuel copied mm = .err .invalidArgs mm := by
  induction fuel generalizing copied with
  | zero => exact .inl ⟨[], rfl, by simp only [List.length_nil]; omega⟩
  | succ fuel ih =>
    by_cases more : copied < len
    · have pos : 0 < min (len - copied) (4096 - wadd src copied % 4096) := chunk_pos more
      simp only [copyFromUserLoop, if_pos more, Prog.bind_apply, Prog.get]
      cases translateUserVa mm.mem l0Pa (wadd src copied) with
      | none => exact .inr rfl
      | some pa =>
        rcases ih (copied + min (len - copied) (4096 - wadd src copied % 4096)) (by omega) with
          ⟨rest, run, rest_len⟩ | run
        · refine .inl ⟨_, by simp only [Prog.bind_apply, run]; rfl, ?_⟩
          rw [List.length_append, Mem.load_length, rest_len]
          omega
        · exact .inr (by simp only [Prog.bind_apply, run])
    · simp only [copyFromUserLoop, if_neg more]
      exact .inl ⟨[], rfl, by simp only [List.length_nil]; omega⟩

/-- A copy from a process leaves the memory alone; it gives as many bytes as were asked for, or the one
error. -/
theorem safeCopyFromUser_cases (l0Pa src len : Nat) (mm : Mm) :
    (∃ bytes, safeCopyFromUser l0Pa src len mm = .ok bytes mm ∧ bytes.length = len) ∨
      safeCopyFromUser l0Pa src len mm = .err .invalidArgs mm := by
  unfold safeCopyFromUser
  split_ifs
  · exact .inr rfl
  · exact copyFromUserLoop_cases l0Pa src len len 0 mm (by omega)

/-! ## There and back -/

theorem store_load_self (m : Mem) (a n : Nat) : m.store a (m.load a n) = m := by
  funext x
  unfold Mem.store
  split_ifs with reached
  · by_cases inside : x - a < n
    · rw [List.getElem?_eq_getElem (by rwa [Mem.load_length]), Mem.load_getElem, Nat.add_sub_cancel' reached]
      rfl
    · rw [List.getElem?_eq_none (by rw [Mem.load_length]; omega)]
      rfl
  · rfl

theorem copyToUserLoop_back {l0Pa src fuel copied : Nat} {mm : Mm} {all : List UInt8}
    (read : copyFromUserLoop l0Pa src all.length fuel copied mm = .ok (all.drop copied) mm) :
    copyToUserLoop l0Pa all src fuel copied mm = .ok () mm := by
  induction fuel generalizing copied with
  | zero => rfl
  | succ fuel ih =>
    by_cases more : copied < all.length
    · simp only [copyFromUserLoop, copyToUserLoop, if_pos more, Prog.bind_apply, Prog.get] at read ⊢
      cases found : translateUserVa mm.mem l0Pa (wadd src copied) with
      | none => simp only [found] at read; cases read
      | some pa =>
        simp only [found, Prog.bind_apply] at read ⊢
        generalize chunk_eq : min (all.length - copied) (4096 - wadd src copied % 4096) = chunk at read ⊢
        cases rest_eq : copyFromUserLoop l0Pa src all.length fuel (copied + chunk) mm with
        | err e u => simp only [rest_eq] at read; cases read
        | fault u => simp only [rest_eq] at read; cases read
        | ok rest u =>
          simp only [rest_eq] at read
          injection read with bytes state
          rw [state] at rest_eq
          have front : (all.drop copied).take chunk = mm.mem.load pa chunk := by
            rw [← bytes, List.take_left' (Mem.load_length _ _ _)]
          have back : all.drop (copied + chunk) = rest := by
            rw [← List.drop_drop, ← bytes, List.drop_left' (Mem.load_length _ _ _)]
          have same : mm.setMem (mm.mem.store pa (mm.mem.load pa chunk)) = mm := by rw [store_load_self]; rfl
          simp only [Prog.modify, front, same]
          exact ih (by rw [back]; exact rest_eq)
    · simp only [copyToUserLoop, if_neg more]
      rfl

/-- What was read can be written back to its place, which changes nothing. -/
theorem safeCopyToUser_back {l0Pa src : Nat} {mm : Mm} {bytes : List UInt8}
    (read : safeCopyFromUser l0Pa src bytes.length mm = .ok bytes mm) :
    safeCopyToUser l0Pa bytes src mm = .ok () mm := by
  unfold safeCopyFromUser at read
  unfold safeCopyToUser
  split_ifs at read ⊢
  · cases read
  · exact copyToUserLoop_back read

theorem load_split (m : Mem) (a i j : Nat) : m.load a (i + j) = m.load a i ++ m.load (a + i) j := by
  simp only [Mem.load, List.range_add, List.map_append, List.map_map]
  congr 1
  refine List.map_congr_left fun k _ => ?_
  simp only [Function.comp_apply, Nat.add_assoc]

end CapsuleOS
