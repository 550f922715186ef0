import CapsuleOS.Task.ProcessRuns
import CapsuleOS.Vfs.PipeEnds

/-!
# Pipe counts over runs

`Owing` compares the counts of the pipe table with the descriptors that are there, up to a difference
that a call makes and settles again before it returns. `FdOp.Meets` is what a step must meet for that.
-/
namespace CapsuleOS

open Lib

/-! ## The table of pipes -/

namespace Pipes

variable {t t' : Pipes} {i : Fin maxPipes} {p : Pipe}

/-- How many ends of a kind the table counts; none for a pipe that is not there. -/
def count (t : Pipes) (id : Nat) (role : PipeRole) : Nat :=
  if h : id < maxPipes then (t.table ⟨id, h⟩).elim 0 (·.count role) else 0

/-- Every pipe in the table has an end left. -/
def InUse (t : Pipes) : Prop := ∀ i p, t.table i = some p → ∃ role, p.count role ≠ 0

theorem count_of_live (live : t.table i = some p) (role : PipeRole) :
    t.count i.val role = p.count role := by
  simp only [count, dif_pos i.isLt, Fin.eta, live, Option.elim_some]

theorem count_set (t : Pipes) (i : Fin maxPipes) (p : Option Pipe) (id : Nat) (role : PipeRole) :
    (t.set i p).count id role = if id = i.val then p.elim 0 (·.count role) else t.count id role := by
  by_cases here : id = i.val
  · subst here
    simp only [count, dif_pos i.isLt, Fin.eta, set_table_self, if_true]
  · rw [if_neg here, count, count]
    split_ifs with h
    · rw [set_table_of_ne fun eq => here (congrArg Fin.val eq)]
    · rfl

theorem InUse.set (h : t.InUse) {q : Option Pipe} (left : ∀ p, q = some p → ∃ role, p.count role ≠ 0) :
    (t.set i q).InUse := by
  intro j p live
  by_cases here : j = i
  · subst here
    rw [set_table_self] at live
    exact left p live
  · rw [set_table_of_ne here] at live
    exact h j p live

/-- There is a pipe where ends are counted. -/
theorem live_of_count {id : Nat} {role : PipeRole} (pos : t.count id role ≠ 0) :
    ∃ h : id < maxPipes, ∃ p, t.table ⟨id, h⟩ = some p := by
  unfold count at pos
  split_ifs at pos with h
  · refine ⟨h, Option.ne_none_iff_exists'.mp fun empty => pos ?_⟩
    rw [empty, Option.elim_none]
  · exact absurd rfl pos

theorem count_setCount (p : Pipe) (role role' : PipeRole) (n : Nat) :
    (p.setCount role n).count role' = if role = role' then n else p.count role' := by
  cases role <;> cases role' <;> rfl

/-- One more or one less of an end. -/
abbrev one (id : Nat) (role : PipeRole) (e : FdEntry) : Nat := if FdEntry.pipe id role = e then 1 else 0

theorem allocPipe_post (t : Pipes) (inUse : t.InUse) :
    Prog.Post allocPipe t
      (fun id t' => (t.nextPipeId % 2 ^ 32 < maxPipes ∧ id = t.nextPipeId % 2 ^ 32 ∧
          ∀ id' role, t'.count id' role = if id' = id then 1 else t.count id' role) ∧ t'.InUse)
      (fun t' => t'.table = t.table) := by
  by_cases h : t.nextPipeId % 2 ^ 32 < maxPipes
  · refine .of_ok ⟨_, _, by simp only [allocPipe, dif_pos h]; rfl, ⟨h, rfl, fun id' role => ?_⟩, ?_⟩
    · rw [count_set]
      cases role <;> rfl
    · refine InUse.set inUse ?_
      rintro _ ⟨⟩
      exact ⟨.read, by decide⟩
  · have full : allocPipe t = .err .noMemory { t with nextPipeId := t.nextPipeId + 1 } := by
      simp only [allocPipe, dif_neg h]
    exact .of_err full rfl

theorem closeRole_post (t : Pipes) (inUse : t.InUse) (id : Nat) (role : PipeRole) :
    Prog.Post (closeRole id role) t
      (fun _ t' => (∀ id' role', t'.count id' role' = t.count id' role' - one id role (.pipe id' role')) ∧
        t'.InUse) (fun t' => t' = t) := by
  by_cases h : id < maxPipes
  · cases live : t.table ⟨id, h⟩ with
    | none =>
      refine .of_ok ⟨(), t, by simp only [closeRole, dif_pos h, live], fun id' role' => ?_, inUse⟩
      by_cases here : FdEntry.pipe id role = .pipe id' role'
      · cases here
        rw [count, dif_pos h, live, Option.elim_none, Nat.zero_sub]
      · rw [one, if_neg here, Nat.sub_zero]
    | some p =>
      refine .of_ok ⟨(), _, by simp only [closeRole, dif_pos h, live]; rfl, fun id' role' => ?_, ?_⟩
      · rw [count_set]
        split_ifs with here
        · subst here
          rw [count_of_live (i := ⟨id', h⟩) live, one, dropEnd]
          have less : (p.setCount role (p.count role - 1)).count role' =
              p.count role' - if role = role' then 1 else 0 := by
            rw [count_setCount]
            split_ifs with same
            · rw [same]
            · rfl
          simp only [FdEntry.pipe.injEq, true_and]
          rw [← less]
          split_ifs with gone
          · rw [Option.elim_none]
            cases role'
            · exact gone.1.symm
            · exact gone.2.symm
          · rw [Option.elim_some]
        · rw [one, if_neg fun eq => here (FdEntry.pipe.inj eq).1.symm, Nat.sub_zero]
      · refine InUse.set inUse fun q left => ?_
        simp only [dropEnd, Option.ite_none_left_eq_some] at left
        obtain ⟨gone, last⟩ := left
        cases last
        by_contra none_left
        push Not at none_left
        exact gone ⟨none_left .read, none_left .write⟩
  · exact .of_fault (by simp only [closeRole, dif_neg h]) rfl

theorem cloneRole_post (t : Pipes) (inUse : t.InUse) {id : Nat} {role some_role : PipeRole}
    (pos : t.count id some_role ≠ 0) :
    Prog.Post (cloneRole id role) t
      (fun _ t' => (∀ id' role', t'.count id' role' = t.count id' role' + one id role (.pipe id' role')) ∧
        t'.InUse) (fun _ => False) := by
  obtain ⟨h, p, live⟩ := live_of_count pos
  refine .of_ok ⟨(), _, by simp only [cloneRole, dif_pos h, live]; rfl, fun id' role' => ?_, ?_⟩
  · rw [count_set]
    split_ifs with here
    · subst here
      rw [count_of_live (i := ⟨id', h⟩) live, one, Option.elim_some, count_setCount]
      simp only [FdEntry.pipe.injEq, true_and]
      split_ifs with same
      · rw [same]
      · rfl
    · rw [one, if_neg fun eq => here (FdEntry.pipe.inj eq).1.symm, Nat.add_zero]
  · refine InUse.set inUse ?_
    rintro _ ⟨⟩
    refine ⟨role, ?_⟩
    rw [count_setCount, if_pos rfl]
    omega

end Pipes

/-! ## Reading and writing -/

namespace Pipe

/-- The counts are the same. -/
def SameCounts (p p' : Pipe) : Prop := ∀ role, p'.count role = p.count role

instance : Std.Refl SameCounts := ⟨fun _ _ => rfl⟩

instance : IsTrans Pipe SameCounts := ⟨fun _ _ _ h h' role => (h' role).trans (h role)⟩

theorem readLoop_counts (want : Nat) : Prog.Within SameCounts (readLoop want) := by
  induction want with
  | zero => exact .pure _
  | succ want ih =>
    refine Prog.Within.get.bind fun p => ?_
    split_ifs
    · exact .pure _
    · refine (Prog.Within.modify fun p role => ?_).bind fun _ => ih.bind fun rest => .pure _
      cases role <;> rfl

theorem read_counts (len : Nat) : Prog.Within SameCounts (read len) := by
  refine Prog.Within.get.bind fun p => ?_
  split_ifs
  · exact .pure _
  · exact readLoop_counts len

theorem writeLoop_counts (bs : List UInt8) (n : Nat) : Prog.Within SameCounts (writeLoop bs n) := by
  induction bs generalizing n with
  | nil => exact .pure n
  | cons b bs ih =>
    refine Prog.Within.get.bind fun p => ?_
    split_ifs
    · exact .throw _
    · exact .pure n
    · refine (Prog.Within.modify fun p role => ?_).bind fun _ => ih (n + 1)
      cases role <;> rfl

theorem write_counts (bs : List UInt8) : Prog.Within SameCounts (write bs) := by
  refine Prog.Within.get.bind fun p => ?_
  split_ifs
  · exact .throw _
  · exact writeLoop_counts bs 0

/-- A read of at least one byte returns nothing only if there is nothing. -/
theorem read_eq_nil {p : Pipe} {len : Nat} (some_room : len ≠ 0) :
    (∃ p', read len p = .ok [] p') ↔ p.head = p.tail := by
  obtain ⟨want, rfl⟩ := Nat.exists_eq_succ_of_ne_zero some_room
  constructor
  · rintro ⟨p', run⟩
    by_contra more
    have loop : readLoop (want + 1) p = .ok [] p' := by
      simpa only [read, Prog.bind_apply, Prog.get, if_neg fun eof => more (And.right eof)] using run
    simp only [readLoop, Prog.bind_apply, Prog.get, if_neg more, Prog.modify] at loop
    cases rest : readLoop want { p with tail := Ring.next p.tail } <;>
      simp [rest, Prog.pure_apply] at loop
  · intro empty
    refine ⟨p, ?_⟩
    simp only [read, Prog.bind_apply, Prog.get]
    split_ifs
    · rfl
    · simp only [readLoop, Prog.bind_apply, Prog.get, if_pos empty]
      rfl

end Pipe

namespace Pipes

/-- The pipes are the same but for their bytes. -/
def SameEnds (t t' : Pipes) : Prop :=
  (∀ id role, t'.count id role = t.count id role) ∧ (t.InUse → t'.InUse)

instance : Std.Refl SameEnds := ⟨fun _ => ⟨fun _ _ => rfl, id⟩⟩

theorem onPipe_ends {α : Type} {m : PipeM α} (counts : Prog.Within Pipe.SameCounts m) (id : Nat) :
    Prog.Within SameEnds (onPipe id m) := by
  intro t
  unfold onPipe
  split_ifs with h
  · cases live : t.table ⟨id, h⟩ with
    | none => exact Std.Refl.refl t
    | some p =>
      have same := counts p
      have put : ∀ p' : Pipe, p.SameCounts p' → SameEnds t (t.set ⟨id, h⟩ (some p')) := by
        intro p' same
        refine ⟨fun id' role => ?_, fun inUse => inUse.set ?_⟩
        · rw [count_set]
          split_ifs with here
          · subst here
            rw [Option.elim_some, same role, count_of_live (i := ⟨id', h⟩) live]
          · rfl
        · rintro _ ⟨⟩
          obtain ⟨role, pos⟩ := inUse _ p live
          exact ⟨role, by rwa [same role]⟩
      simp only
      cases run : m p with
      | ok a p' => exact put p' (by simpa [run] using same)
      | err e p' => exact put p' (by simpa [run] using same)
      | fault p' => exact put p' (by simpa [run] using same)
  · exact Std.Refl.refl t

end Pipes

/-! ## Free slots -/

section Slots

variable {t : FdTable}

/-- The slot `k` rounds after `start`. -/
def fdAt (start k : Nat) : Fin fdTableSize := ⟨(start + k) % fdTableSize, Nat.mod_lt _ (by decide)⟩

/-- The scan finds the first free slot, in a circle. -/
theorem scanFds_spec (t : FdTable) (rounds : Nat) {start : Nat} (lt : start < fdTableSize) :
    (Os.scanFds t rounds start = none ∧ ∀ k < rounds, t (fdAt start k) ≠ none) ∨
    ∃ k < rounds, Os.scanFds t rounds start = some (fdAt start k) ∧ t (fdAt start k) = none ∧
      ∀ j < k, t (fdAt start j) ≠ none := by
  induction rounds generalizing start with
  | zero => exact .inl ⟨rfl, fun _ h => absurd h (Nat.not_lt_zero _)⟩
  | succ rounds ih =>
    have here : fdAt start 0 = ⟨start, lt⟩ := Fin.ext (Nat.mod_eq_of_lt lt)
    have after : ∀ k, fdAt ((start + 1) % fdTableSize) k = fdAt start (k + 1) := fun k => by
      apply Fin.ext
      simp only [fdAt, Nat.mod_add_mod]
      congr 1
      omega
    simp only [Os.scanFds, dif_pos lt]
    by_cases free : t ⟨start, lt⟩ = none
    · rw [if_pos free]
      refine .inr ⟨0, by omega, by rw [here], by rw [here]; exact free, ?_⟩
      exact fun _ h => absurd h (Nat.not_lt_zero _)
    · rw [if_neg free]
      have taken : ∀ k, (∀ j < k, t (fdAt start (j + 1)) ≠ none) → ∀ j < k + 1, t (fdAt start j) ≠ none := by
        intro k rest j lt
        cases j with
        | zero => rwa [here]
        | succ j => exact rest j (by omega)
      rcases ih (Nat.mod_lt (start + 1) (by decide : 0 < fdTableSize)) with
        ⟨none_free, all⟩ | ⟨k, hk, found, free', first⟩
      · simp only [after] at all
        exact .inl ⟨none_free, taken rounds all⟩
      · simp only [after] at found free' first
        exact .inr ⟨k + 1, by omega, found, free', taken k first⟩

theorem scanFds_wrap (t : FdTable) {start : Nat} (ge : ¬ start < fdTableSize) (rounds : Nat) :
    Os.scanFds t rounds start = Os.scanFds t rounds userFdBase := by
  cases rounds with
  | zero => rfl
  | succ rounds => simp only [Os.scanFds, dif_neg ge, dif_pos (by decide : userFdBase < fdTableSize)]

/-- There is a free slot that `sys_pipe` gives to the caller first, and another one. -/
def RoomForTwo (t : FdTable) : Prop :=
  ∃ f g : Fin fdTableSize, f ≠ g ∧ userFdBase ≤ f.val ∧ f.val < 15 ∧ t f = none ∧ t g = none

/-- A search from the slot behind the one found last does not find that slot again. -/
theorem RoomForTwo.scan (room : RoomForTwo t) (n : Nat) :
    ∃ rd, Os.scanFds t fdTableSize (max n userFdBase) = some rd ∧ t rd = none ∧
      ∃ wr, Os.scanFds t fdTableSize (max ((rd.val + 1) % fdTableSize) userFdBase) = some wr ∧
        t wr = none ∧ wr ≠ rd := by
  obtain ⟨f, g, ne, low, high, free_f, free_g⟩ := room
  have reach : ∀ start < fdTableSize, ∀ h : Fin fdTableSize,
      ∃ k < fdTableSize, fdAt start k = h ∧ k = (h.val + (16 - start)) % 16 := by
    intro start lt h
    have h_lt : h.val < 16 := h.isLt
    have start_lt : start < 16 := lt
    refine ⟨(h.val + (16 - start)) % 16, Nat.mod_lt _ (by decide), Fin.ext ?_, rfl⟩
    have same : (start + (h.val + (16 - start)) % 16) % 16 = h.val := by omega
    exact same
  have find : ∀ start < fdTableSize, ∃ k < fdTableSize,
      Os.scanFds t fdTableSize start = some (fdAt start k) ∧ t (fdAt start k) = none ∧
        ∀ j < k, t (fdAt start j) ≠ none := by
    intro start lt
    rcases scanFds_spec t fdTableSize lt with ⟨_, all⟩ | found
    · obtain ⟨k, hk, rfl, _⟩ := reach start lt f
      exact absurd free_f (all k hk)
    · exact found
  have first : ∃ rd, Os.scanFds t fdTableSize (max n userFdBase) = some rd ∧ t rd = none := by
    by_cases lt : max n userFdBase < fdTableSize
    · obtain ⟨k, _, found, free, _⟩ := find _ lt
      exact ⟨_, found, free⟩
    · obtain ⟨k, _, found, free, _⟩ := find userFdBase (by decide)
      exact ⟨_, (scanFds_wrap t lt _).trans found, free⟩
  obtain ⟨rd, found, free⟩ := first
  refine ⟨rd, found, free, ?_⟩
  have rd_lt : rd.val < 16 := rd.isLt
  have start_lt : max ((rd.val + 1) % 16) 3 < 16 := by omega
  obtain ⟨k, hk, found', free', before⟩ := find _ start_lt
  refine ⟨_, found', free', fun again => ?_⟩
  -- the slot is the last of its circle, or `f` comes before it
  have at_k : (max ((rd.val + 1) % 16) 3 + k) % 16 = rd.val := congrArg Fin.val again
  obtain ⟨j, hj, at_f, j_eq⟩ := reach _ start_lt f
  obtain ⟨l, hl, at_g, l_eq⟩ := reach _ start_lt g
  have f_late : ¬ j < k := fun early => before j early (by rw [at_f]; exact free_f)
  have g_late : ¬ l < k := fun early => before l early (by rw [at_g]; exact free_g)
  have g_lt : g.val < 16 := g.isLt
  have k_lt : k < 16 := hk
  have low : 3 ≤ f.val := low
  have ne_val : f.val ≠ g.val := fun eq => ne (Fin.ext eq)
  omega

end Slots

/-! ## Slots of the caller -/

namespace Os

variable {s : Os} {p : Process} {pid : Nat}

theorem findProcess_modify {f : Process → Process} (id_eq : ∀ p, (f p).id = p.id)
    (found : s.findProcess pid = some p) :
    ({ s with processes := s.processes.modify (·.id == pid) f } : Os).findProcess pid = some (f p) := by
  have mine := List.find?_some ((Slots.find?_eq _ _).symm.trans found)
  unfold findProcess at found ⊢
  rw [Slots.find?_modify_sub (fun _ h => h) (fun a h => by rwa [id_eq a]), found, Option.map_some,
    if_pos mine]

theorem setFd_ok (found : s.findProcess pid = some p) (fd : Fin fdTableSize) (entry : FdEntry) :
    ∃ s', setFd pid fd entry s = .ok () s' ∧
      s'.findProcess pid = some { p with fdTable := Function.update p.fdTable fd (some entry) } ∧
      ∀ e, s'.held e + (if p.fdTable fd = some e then 1 else 0) = s.held e + if entry = e then 1 else 0 := by
  refine ⟨_, rfl, findProcess_modify (by intro; rfl) found, fun e => ?_⟩
  have filled := p.held_update fd entry e
  have moved := held_modify (e := e)
    (f := fun p => { p with fdTable := Function.update p.fdTable fd (some entry) }) found
  simp only at moved ⊢
  omega

/-- Taking a descriptor number leaves the table as it is. -/
theorem allocUserFd_ok (found : s.findProcess pid = some p) {fd : Fin fdTableSize}
    (scan : scanFds p.fdTable fdTableSize (max p.nextFd userFdBase) = some fd) :
    ∃ s', allocUserFd pid s = .ok fd s' ∧
      s'.findProcess pid = some { p with nextFd := (fd + 1) % fdTableSize } ∧ s.SameEnds s' := by
  have step : updateProcess pid (fun p => { p with nextFd := (fd + 1) % fdTableSize }) s =
      .ok () { s with processes := s.processes.modify (·.id == pid) fun p =>
        { p with nextFd := (fd + 1) % fdTableSize } } := rfl
  have same : Prog.Within SameEnds
      (updateProcess pid fun p => { p with nextFd := (fd + 1) % fdTableSize }) :=
    updateProcess_ends fun _ => rfl
  have same := same s
  rw [step] at same
  refine ⟨_, ?_, findProcess_modify (by intro; rfl) found, same⟩
  simp only [allocUserFd, Prog.bind_apply, lookupProcess, found, scan, step]
  rfl

end Os

/-! ## Counts and descriptors -/

namespace FdSys

/-- The table counts `owed` more ends of each kind than there are descriptors. -/
structure Owing (owed : FdEntry → Int) (s : FdSys) : Prop where
  count : ∀ id role, (s.pipes.count id role : Int) = s.os.held (.pipe id role) + owed (.pipe id role)
  inUse : s.pipes.InUse

/-- The table counts the descriptors that there are. -/
def Exact (s : FdSys) : Prop := Owing (fun _ => 0) s

variable {s s' : FdSys} {owed : FdEntry → Int} {pid : Nat} {p : Process} {α : Type}

theorem Owing.congr {owed' : FdEntry → Int} (h : Owing owed s) (same : ∀ e, owed' e = owed e) :
    Owing owed' s := by
  rwa [funext same]

theorem Owing.onOs {m : OsM α} (h : Owing owed s) (keep : Prog.Within Os.SameEnds m) :
    Prog.Post (onOs m) s (fun _ s' => Owing owed s') (fun s' => Owing owed s') := by
  have same : ∀ os, s.os.SameEnds os → Owing owed { s with os } := fun os same =>
    ⟨fun id role => by rw [same]; exact h.count id role, h.inUse⟩
  exact (Prog.Post.of_within keep).zoom (fun _ os rel => same os rel) fun os rel => same os rel

theorem Owing.onPipe {m : PipeM α} (h : Owing owed s) (counts : Prog.Within Pipe.SameCounts m) (id : Nat) :
    Prog.Post (onPipes (Pipes.onPipe id m)) s (fun _ s' => Owing owed s') (fun s' => Owing owed s') := by
  have same : ∀ pipes, s.pipes.SameEnds pipes → Owing owed { s with pipes } := fun pipes same =>
    ⟨fun id role => by rw [same.1]; exact h.count id role, same.2 h.inUse⟩
  exact (Prog.Post.of_within (Pipes.onPipe_ends counts id)).zoom (fun _ pipes rel => same pipes rel)
    fun pipes rel => same pipes rel

/-- What a slot adds to the descriptors. -/
def slotEnd (entry : Option FdEntry) (e : FdEntry) : Int := if entry = some e then 1 else 0

theorem slotEnd_none : slotEnd none = fun _ => 0 := rfl

theorem one_eq_slotEnd (id : Nat) (role : PipeRole) (e : FdEntry) :
    (Pipes.one id role e : Int) = slotEnd (some (.pipe id role)) e := by
  simp only [Pipes.one, slotEnd, Option.some.injEq]
  split_ifs <;> rfl

/-- Filling a slot of the caller. -/
theorem Owing.setFd (h : Owing owed s) (found : s.os.findProcess pid = some p) (fd : Fin fdTableSize)
    (entry : FdEntry) :
    Prog.Post (FdSys.onOs (Os.setFd pid fd entry)) s (fun _ s' =>
        Owing (fun e => owed e + slotEnd (p.fdTable fd) e - slotEnd (some entry) e) s' ∧
        s'.os.findProcess pid = some { p with fdTable := Function.update p.fdTable fd (some entry) })
      (fun _ => False) := by
  obtain ⟨os, run, found', moved⟩ := Os.setFd_ok found fd entry
  refine .of_ok ⟨(), { s with os }, by simp only [FdSys.onOs, Prog.zoom, run],
    ⟨fun id role => ?_, h.inUse⟩, found'⟩
  have counted := h.count id role
  have held := moved (.pipe id role)
  simp only [slotEnd, Option.some.injEq]
  split_ifs at held ⊢ <;> omega

theorem Owing.allocUserFd (h : Owing owed s) (found : s.os.findProcess pid = some p) {fd : Fin fdTableSize}
    (scan : Os.scanFds p.fdTable fdTableSize (max p.nextFd userFdBase) = some fd) :
    Prog.Post (FdSys.onOs (Os.allocUserFd pid)) s (fun fd' s' => fd' = fd ∧ Owing owed s' ∧
        s'.os.findProcess pid = some { p with nextFd := (fd + 1) % fdTableSize })
      (fun _ => False) := by
  obtain ⟨os, run, found', same⟩ := Os.allocUserFd_ok found scan
  refine .of_ok ⟨fd, { s with os }, by simp only [FdSys.onOs, Prog.zoom, run], rfl,
    ⟨fun id role => ?_, h.inUse⟩, found'⟩
  have counted := h.count id role
  rwa [← same] at counted

/-! ## Calls -/

/-- The caller of a call, with its process. -/
theorem callers_post {E : FdSys → Prop} {Q : α → FdSys → Prop} {f : Nat → Process → FdM α} (early : E s)
    (rest : ∀ t p, s.os.sched.getCurrentThread = some t → s.os.findProcess t.processId = some p →
      Prog.Post (f t.processId p) s Q E) :
    Prog.Post (do
      let caller ← onOs Os.currentProcessId
      let p ← onOs (Os.lookupProcess caller)
      f caller p) s Q E := by
  cases cur : s.os.sched.getCurrentThread with
  | none =>
    refine .of_err (e := .notFound) ?_ early
    simp only [Prog.bind_apply, onOs, Prog.zoom, Os.currentProcessId, cur]
  | some t =>
    cases found : s.os.findProcess t.processId with
    | none =>
      refine .of_err (e := .notFound) ?_ early
      simp only [Prog.bind_apply, onOs, Prog.zoom, Os.currentProcessId, cur, Os.lookupProcess, found]
    | some p =>
      have eq : (do
          let caller ← onOs Os.currentProcessId
          let p ← onOs (Os.lookupProcess caller)
          f caller p : FdM α) s = f t.processId p s := by
        simp only [Prog.bind_apply, onOs, Prog.zoom, Os.currentProcessId, cur, Os.lookupProcess, found]
      exact .congr eq (rest t p cur found)

/-- If `sys_pipe` gets a pipe, it is a slot that no pipe uses, and the caller has room for both ends. -/
def PipeRoom (s : FdSys) : Prop := ∀ t p, s.os.sched.getCurrentThread = some t →
  s.os.findProcess t.processId = some p → ∀ h : s.pipes.nextPipeId % 2 ^ 32 < maxPipes,
    s.pipes.table ⟨_, h⟩ = none ∧ RoomForTwo p.fdTable

theorem Exact.sysPipe (h : s.Exact) {l0Pa ufdsPtr : Nat}
    (room : l0Pa ≠ 0 → ufdsPtr ≠ 0 → s.PipeRoom) :
    Prog.Post (FdSys.sysPipe l0Pa ufdsPtr) s (fun _ s' => s'.Exact) (fun s' => s'.Exact) := by
  unfold FdSys.sysPipe
  refine callers_post (f := fun caller _ => _) h fun t p cur found => ?_
  split_ifs with bad
  · exact .throw h
  · push Not at bad
    have place := room bad.1 bad.2 t p cur found
    refine Prog.Post.bind (Q := fun id s' => s'.os = s.os ∧ RoomForTwo p.fdTable ∧
        Owing (fun e => slotEnd (some (.pipe id .read)) e + slotEnd (some (.pipe id .write)) e) s')
      ((Pipes.allocPipe_post s.pipes h.inUse).zoom ?_ ?_) ?_
    · rintro id pipes ⟨⟨lt, rfl, counts⟩, inUse⟩
      obtain ⟨empty, two⟩ := place lt
      refine ⟨rfl, two, fun id role => ?_, inUse⟩
      have before := h.count id role
      have now := counts id role
      change ((pipes.count id role : Nat) : Int) = (s.os.held (.pipe id role) : Int) + _
      rw [now]
      simp only [slotEnd, Option.some.injEq, FdEntry.pipe.injEq]
      by_cases here : id = s.pipes.nextPipeId % 2 ^ 32
      · have zero : s.pipes.count id role = 0 := by
          rw [Pipes.count, here, dif_pos lt, empty, Option.elim_none]
        cases role <;> simp [here] at before zero ⊢ <;> omega
      · simp only [if_neg here, if_neg (show ¬ (s.pipes.nextPipeId % 2 ^ 32 = id ∧ _) from
          fun eq => here eq.1.symm)]
        omega
    · rintro pipes same
      refine ⟨fun id role => ?_, fun i q live => h.inUse i q ?_⟩
      · have before := h.count id role
        rw [Pipes.count] at before ⊢
        rwa [same]
      · rwa [← same]
    · rintro id s₁ ⟨os_eq, two, owing₁⟩
      obtain ⟨rd, scan_rd, free_rd, wr, scan_wr, free_wr, ne⟩ := two.scan p.nextFd
      rw [← os_eq] at found
      refine Prog.Post.bind ((owing₁.allocUserFd found scan_rd).mono (fun _ _ h => h) fun _ h => h.elim) ?_
      rintro rd s₂ ⟨rfl, owing₂, found₂⟩
      refine Prog.Post.bind ((owing₂.allocUserFd found₂ scan_wr).mono (fun _ _ h => h) fun _ h => h.elim) ?_
      rintro wr s₃ ⟨rfl, owing₃, found₃⟩
      refine Prog.Post.bind ((owing₃.setFd found₃ rd _).mono (fun _ _ h => h) fun _ h => h.elim) ?_
      rintro _ s₄ ⟨owing₄, found₄⟩
      refine (owing₄.setFd found₄ wr _).mono (fun _ s' h => h.1.congr fun e => ?_) fun _ h => h.elim
      simp only [Function.update_of_ne ne, free_rd, free_wr, slotEnd_none]
      omega

/-- An entry of the caller refers to a pipe that counts it. -/
theorem Exact.counted (h : s.Exact) (found : s.os.findProcess pid = some p) {fd : Fin fdTableSize}
    {id : Nat} {role : PipeRole} (here : p.fdTable fd = some (.pipe id role)) :
    1 ≤ s.pipes.count id role ∧ ∀ fd' ≠ fd, p.fdTable fd' = some (.pipe id role) →
      2 ≤ s.pipes.count id role := by
  have mem : p ∈ s.os.processes.occupants :=
    List.mem_of_find?_eq_some ((Slots.find?_eq _ _).symm.trans found)
  have all : p.held (.pipe id role) ≤ s.os.held (.pipe id role) := Os.held_ge mem
  have counted := h.count id role
  refine ⟨?_, fun fd' ne there => ?_⟩
  · have one := Process.held_pos here
    omega
  · have two := Process.held_two there here ne
    omega

/-- Closing what is in a slot. -/
theorem Exact.closeEntry (h : s.Exact) (found : s.os.findProcess pid = some p) (fd : Fin fdTableSize) :
    Prog.Post (FdSys.closeEntry (p.fdTable fd)) s
      (fun _ s' => s'.os = s.os ∧ Owing (fun e => - slotEnd (p.fdTable fd) e) s') (fun s' => s' = s) := by
  cases here : p.fdTable fd with
  | none => exact .pure ⟨rfl, Owing.congr h fun e => by simp [slotEnd_none]⟩
  | some entry =>
    cases entry with
    | pipe id role =>
      have one := (h.counted found here).1
      refine (Pipes.closeRole_post s.pipes h.inUse id role).zoom ?_ ?_
      · rintro _ pipes ⟨counts, inUse⟩
        refine ⟨rfl, fun id' role' => ?_, inUse⟩
        have before := h.count id' role'
        have now := counts id' role'
        change ((pipes.count id' role' : Nat) : Int) = (s.os.held (.pipe id' role') : Int) + _
        rw [now, ← one_eq_slotEnd]
        by_cases same : FdEntry.pipe id role = .pipe id' role'
        · cases same
          simp only [Pipes.one, if_true] at *
          omega
        · simp only [Pipes.one, if_neg same] at *
          omega
      · rintro pipes rfl
        rfl

theorem Owing.cloneEntry (h : Owing owed s) {id : Nat} {role : PipeRole}
    (pos : s.pipes.count id role ≠ 0) :
    Prog.Post (FdSys.cloneEntry (.pipe id role)) s
      (fun _ s' => Owing (fun e => owed e + slotEnd (some (.pipe id role)) e) s') (fun _ => False) := by
  refine (Pipes.cloneRole_post s.pipes h.inUse pos).zoom ?_ fun _ h => h
  rintro _ pipes ⟨counts, inUse⟩
  refine ⟨fun id' role' => ?_, inUse⟩
  have before := h.count id' role'
  have now := counts id' role'
  change ((pipes.count id' role' : Nat) : Int) = (s.os.held (.pipe id' role') : Int) + _
  rw [now, ← one_eq_slotEnd]
  omega

theorem Exact.sysDup2 (h : s.Exact) (oldfd newfd : Nat) :
    Prog.Post (FdSys.sysDup2 oldfd newfd) s (fun _ s' => s'.Exact) (fun s' => s'.Exact) := by
  unfold FdSys.sysDup2
  refine callers_post (f := fun caller p => _) h fun t p cur found => ?_
  split_ifs with same reserved inside inside'
  · exact .pure h
  · exact .throw h
  · cases source : p.fdTable ⟨oldfd, inside⟩ with
    | none => exact .throw h
    | some entry =>
      obtain ⟨id, role⟩ := entry
      have apart : (⟨newfd, inside'⟩ : Fin fdTableSize) ≠ ⟨oldfd, inside⟩ := fun eq =>
        same (congrArg Fin.val eq).symm
      obtain ⟨one, two⟩ := h.counted found source
      refine Prog.Post.bind ((h.closeEntry found ⟨newfd, inside'⟩).mono (fun _ _ h => h) ?_) ?_
      · rintro s' rfl
        exact h
      rintro _ s₁ ⟨os_eq, owing₁⟩
      -- what is copied is still there, also when the slot held another copy of it
      have live : s₁.pipes.count id role ≠ 0 := by
        have before := h.count id role
        have now := owing₁.count id role
        rw [os_eq] at now
        by_cases again : p.fdTable ⟨newfd, inside'⟩ = some (.pipe id role)
        · have twice := two _ apart again
          simp only [slotEnd, again, if_true] at now
          omega
        · simp only [slotEnd, again, if_false] at now
          omega
      rw [← os_eq] at found
      refine Prog.Post.bind (Q := fun _ s' => s'.pipes = s₁.pipes ∧
        Owing (fun e => - slotEnd (some (.pipe id role)) e) s') (E := fun s' => s'.Exact) ?_ ?_
      · obtain ⟨os, run, _⟩ := Os.setFd_ok found ⟨newfd, inside'⟩ (.pipe id role)
        have filled := owing₁.setFd found ⟨newfd, inside'⟩ (.pipe id role)
        have run' : FdSys.onOs (Os.setFd t.processId ⟨newfd, inside'⟩ (.pipe id role)) s₁ =
            .ok () { s₁ with os } := by simp only [FdSys.onOs, Prog.zoom, run]
        refine .of_ok ⟨(), _, run', rfl, (filled.ok _ _ run').1.congr fun e => ?_⟩
        omega
      rintro _ s₂ ⟨pipes_eq, owing₂⟩
      rw [← pipes_eq] at live
      refine Prog.Post.bind ((owing₂.cloneEntry live).mono (fun _ _ h => h) fun _ h => h.elim) ?_
      intro _ s₃ owing₃
      exact .pure (owing₃.congr fun e => by omega)
  · cases p.fdTable ⟨oldfd, inside⟩ with
    | none => exact .throw h
    | some entry => exact .of_fault rfl h
  · exact .throw h

theorem Exact.pipeEnd (h : s.Exact) (fd : Nat) :
    Prog.Post (FdSys.pipeEnd fd) s (fun _ s' => s'.Exact) (fun s' => s'.Exact) := by
  unfold FdSys.pipeEnd
  split_ifs
  · exact .pure h
  · refine Prog.Post.bind (Owing.onOs h Os.within_currentProcessId) fun caller s' h' => ?_
    exact Prog.Post.get_bind (.pure h')
  · exact .pure h

theorem Exact.dispatchRead (h : s.Exact) (fd bufPtr bufLen : Nat) :
    Prog.Post (FdSys.dispatchRead fd bufPtr bufLen) s (fun _ s' => s'.Exact) (fun s' => s'.Exact) := by
  refine Prog.Post.bind (h.pipeEnd fd) fun entry s' h' => ?_
  rcases entry with _ | ⟨id, role⟩
  · exact .pure h'
  · simp only
    split_ifs
    · exact .pure h'
    · exact .throw h'
    · refine Prog.Post.bind (Owing.onPipe h' (Pipe.read_counts _) id) fun bytes s'' h'' => .pure h''

theorem Exact.dispatchWrite (h : s.Exact) (fd bufPtr bufLen l0Pa : Nat)
    (user : Nat → Except Status (List UInt8)) :
    Prog.Post (FdSys.dispatchWrite fd bufPtr bufLen l0Pa user) s (fun _ s' => s'.Exact)
      (fun s' => s'.Exact) := by
  refine Prog.Post.bind (h.pipeEnd fd) fun entry s' h' => ?_
  rcases entry with _ | ⟨id, role⟩
  · exact .pure h'
  · simp only
    split_ifs
    · exact .pure h'
    · exact .throw h'
    · exact .throw h'
    · split
      · exact .throw h'
      · exact Prog.Post.bind (Owing.onPipe h' (Pipe.write_counts _) id) fun n s'' h'' => .pure h''

end FdSys

/-! ## Process calls -/

namespace Os

variable {s : Os}

theorem wait4_ends {pid : Int} (clean : -1 ≤ pid → s.ReapsClean pid) :
    SameEnds s (wait4 pid s).state := by
  unfold wait4
  simp only [Prog.bind_apply, currentProcessId]
  cases cur : s.sched.getCurrentThread with
  | none => exact Std.Refl.refl s
  | some t =>
    simp only
    split_ifs with negative
    · exact Std.Refl.refl s
    · have same := reap_ends cur (clean (by omega))
      rw [Prog.bind_apply]
      cases ran : reap t.processId pid s with
      | err e u => simpa [ran] using same
      | fault u => simpa [ran] using same
      | ok found u =>
        rw [ran] at same
        cases found with
        | some p => exact same
        | none =>
          simp only [Prog.bind_apply, Prog.get_apply]
          split_ifs
          · exact same
          · exact same

theorem procMgmtWait_ends {pid : Int} (clean : s.ReapsClean pid) :
    SameEnds s (procMgmtWait pid s).state := by
  unfold procMgmtWait
  simp only [Prog.bind_apply, currentProcessId]
  cases cur : s.sched.getCurrentThread with
  | none => exact Std.Refl.refl s
  | some t =>
    have same := reap_ends cur clean
    simp only
    cases ran : reap t.processId pid s with
    | err e u => simpa [ran] using same
    | fault u => simpa [ran] using same
    | ok found u =>
      rw [ran] at same
      cases found <;> exact same

theorem procMgmtExit_ends (pid : Nat) (code : Int) : Prog.Within SameEnds (procMgmtExit pid code) :=
  (within_lookupProcess pid).bind fun _ => markProcessZombie_ends pid code

end Os

/-- Reaping meets a process without descriptors, and `sys_pipe` finds room. -/
def FdOp.Meets (s : FdSys) : FdOp → Prop
  | .proc (.wait4 pid) => -1 ≤ pid → s.os.ReapsClean pid
  | .proc (.procMgmtWait pid) => s.os.ReapsClean pid
  | .pipe l0Pa ufdsPtr => l0Pa ≠ 0 → ufdsPtr ≠ 0 → s.PipeRoom
  | _ => True

namespace FdSys

variable {s s₀ : FdSys}

/-- The process calls. -/
theorem Exact.proc (h : s.Exact) {op : ProcOp} (meets : (FdOp.proc op).Meets s) :
    Prog.Post (onOs op.perform) s (fun _ s' => s'.Exact) (fun s' => s'.Exact) := by
  have quiet : ∀ os, s.os.SameEnds os → FdSys.Exact { s with os } := fun os same =>
    ⟨fun id role => by rw [same]; exact h.count id role, h.inUse⟩
  have drop : ∀ {α : Type} {m : OsM α}, Prog.Within Os.SameEnds m →
      Prog.Within Os.SameEnds (do let _ ← m) := fun keep => keep.bind fun _ => .pure _
  have launch : ∀ last, Prog.Within Os.SameEnds (Os.launch 0 last) :=
    Os.sameEnds_threadFree.launch Os.allocateProcess_ends 0
  have spawn : ∀ last, Prog.Within Os.SameEnds (Os.spawn last) :=
    Os.sameEnds_threadFree.spawn Os.allocateProcess_ends
  have same : s.os.SameEnds (op.perform s.os).state := by
    cases op with
    | task op => exact Os.sameEnds_threadFree.onTasks _ s.os
    | launch last => exact drop (launch last) s.os
    | spawn last => exact drop (spawn last) s.os
    | exec last => exact ((launch last).bind fun _ => Os.sameEnds_threadFree.onTasks _) s.os
    | execve last => exact ((spawn last).bind fun _ => Os.sameEnds_threadFree.onTasks _) s.os
    | processCreate e => exact drop (Os.allocateProcess_ends 0 e) s.os
    | procMgmtCreate parentPid e => exact drop (Os.allocateProcess_ends parentPid e) s.os
    | threadCreate pid e => exact Os.sameEnds_threadFree.threadCreate pid e s.os
    | exit code => exact Os.sameEnds_threadFree.exit (Os.markProcessZombie_ends · code) s.os
    | fault => exact Os.sameEnds_threadFree.onTasks _ s.os
    | procMgmtExit pid code => exact Os.procMgmtExit_ends pid code s.os
    | wait4 pid =>
      have ended := Os.wait4_ends meets
      simp only [ProcOp.perform, Prog.bind_apply]
      cases ran : Os.wait4 pid s.os <;> simpa [ran] using ended
    | procMgmtWait pid =>
      have ended := Os.procMgmtWait_ends meets
      simp only [ProcOp.perform, Prog.bind_apply]
      cases ran : Os.procMgmtWait pid s.os <;> simpa [ran] using ended
    | sigaction sig handler =>
      exact drop (Os.within_sigactionSet fun _ _ _ => Os.updateProcess_ends fun _ => rfl) s.os
    | raise sig => exact Os.within_raise (Os.signalSend_ends · sig) s.os
    | kill pid sig => exact Os.within_kill (Os.signalSend_ends · sig) pid s.os
    | pause => exact Os.pause_ends s.os
  have kept : Prog.Post op.perform s.os (fun _ os => s.os.SameEnds os) fun os => s.os.SameEnds os := by
    refine ⟨fun a os run => ?_, fun e os run => ?_, fun os run => ?_⟩ <;> simpa [run] using same
  exact .zoom kept (fun _ os rel => quiet os rel) fun os rel => quiet os rel

theorem Exact.step (h : s.Exact) {op : FdOp} (meets : op.Meets s) :
    Prog.Post op.perform s (fun _ s' => s'.Exact) (fun s' => s'.Exact) := by
  cases op with
  | proc op => exact h.proc meets
  | pipe l0Pa ufdsPtr => exact h.sysPipe meets
  | dup2 oldfd newfd => exact Prog.Post.bind (h.sysDup2 oldfd newfd) fun _ _ h => .pure h
  | read fd bufPtr bufLen => exact Prog.Post.bind (h.dispatchRead fd bufPtr bufLen) fun _ _ h => .pure h
  | write fd bufPtr bufLen l0Pa user =>
    exact Prog.Post.bind (h.dispatchWrite fd bufPtr bufLen l0Pa user) fun _ _ h => .pure h

/-- At the start there are neither pipes nor descriptors. -/
structure NoPipes (s : FdSys) : Prop where
  table : ∀ i, s.pipes.table i = none
  fds : ∀ p ∈ s.os.processes.occupants, ∀ fd, p.fdTable fd = none

theorem NoPipes.exact (h : s.NoPipes) : s.Exact where
  count id role := by
    have none_held : s.os.held (.pipe id role) = 0 := by
      refine List.sum_eq_zero fun n mem => ?_
      obtain ⟨p, here, rfl⟩ := List.mem_map.mp mem
      exact Process.held_empty (h.fds p here)
    have none_counted : s.pipes.count id role = 0 := by
      unfold Pipes.count
      split_ifs
      · rw [h.table, Option.elim_none]
      · rfl
    rw [none_held, none_counted]
    rfl
  inUse i p live := by
    rw [h.table] at live
    cases live

theorem exact_run (start : s₀.NoPipes) (run : FdOp.system.Run (fun s op => op.Meets s) s₀ s) : s.Exact :=
  run.invariant start.exact fun _ _ _ exact_ meets step => step.ran.state_eq ▸ (exact_.step meets).state

/-- What the counts are for. Of the reads, those are left out that find an empty pipe with a writer:
they return nothing as well. -/
structure EndsCounted (s : FdSys) (i : Fin maxPipes) : Prop where
  freed : s.pipes.table i = none ↔ ∀ role, s.os.held (.pipe i role) = 0
  count : ∀ p, s.pipes.table i = some p → ∀ role, p.count role = s.os.held (.pipe i role)
  eof : ∀ p, s.pipes.table i = some p → (p.head = p.tail → p.nWriters = 0) → ∀ len ≠ 0,
    ((∃ t, Pipes.pipeRead i len s.pipes = .ok [] t) ↔
      p.head = p.tail ∧ s.os.held (.pipe i .write) = 0)

theorem Exact.endsCounted (h : s.Exact) (i : Fin maxPipes) : s.EndsCounted i := by
  have count : ∀ p, s.pipes.table i = some p → ∀ role, p.count role = s.os.held (.pipe i role) := by
    intro p live role
    have counted := h.count i role
    rw [Pipes.count_of_live live] at counted
    omega
  refine ⟨⟨fun empty role => ?_, fun none_held => ?_⟩, count, fun p live writers len some_room => ?_⟩
  · have counted := h.count i role
    rw [Pipes.count, dif_pos i.isLt, empty, Option.elim_none] at counted
    omega
  · cases live : s.pipes.table i with
    | none => rfl
    | some p =>
      obtain ⟨role, pos⟩ := h.inUse i p live
      rw [count p live, none_held] at pos
      exact absurd rfl pos
  · have returns : (∃ t, Pipes.pipeRead i len s.pipes = .ok [] t) ↔ ∃ p', Pipe.read len p = .ok [] p' := by
      constructor
      · rintro ⟨t, run⟩
        simp only [Pipes.pipeRead, Pipes.onPipe, dif_pos i.isLt, Fin.eta, live] at run
        cases ran : Pipe.read len p <;> simp [ran] at run
        exact ⟨_, by rw [run.1]⟩
      · rintro ⟨p', run⟩
        exact ⟨_, Pipes.onPipe_ok live run⟩
    rw [returns, Pipe.read_eq_nil some_room, ← count p live .write]
    exact ⟨fun empty => ⟨empty, writers empty⟩, And.left⟩

/-- After boot there are no processes and no pipes. -/
def boot : FdSys := ⟨Os.boot, Pipes.init⟩

theorem boot_noPipes : boot.NoPipes := ⟨fun _ => rfl, by simp [boot, Os.boot]⟩

/-- The counts are exact in every run in which processes are reaped without descriptors, and `sys_pipe`
takes a free pipe for two free slots. -/
theorem pipe_ends_exact (run : FdOp.system.Run (fun s op => op.Meets s) boot s) (i : Fin maxPipes) :
    s.EndsCounted i := (exact_run boot_noPipes run).endsCounted i

/-- A process makes a pipe and copies the end for reading. -/
def onePipe : List FdOp := [.proc (.launch .done), .proc (.task .run), .pipe 1 8, .dup2 3 5]

theorem onePipe_follows : FdOp.system.Follows (fun s op => op.Meets s) boot onePipe := by
  refine ⟨trivial, trivial, by decide, trivial, rfl, by decide, fun _ _ t p cur found h => ?_, trivial,
    by decide, trivial, trivial, by decide, trivial⟩
  cases cur
  cases found
  exact ⟨rfl, ⟨3, by decide⟩, ⟨4, by decide⟩, by decide, by decide, by decide, rfl, rfl⟩

theorem pipe_ends_exact_one : (FdOp.system.after boot onePipe).EndsCounted ⟨0, by decide⟩ :=
  pipe_ends_exact (Stepper.Run.start.follow onePipe_follows) _

def sevenPipes : List FdOp :=
  [.proc (.launch .done), .proc (.task .run)] ++ List.replicate 7 (.pipe 1 8)

/-- The seventh pipe of a process gets its last slot for both ends, and counts a reader that is
not there. -/
theorem seventh_pipe_miscounts : ∃ s, FdOp.system.Run (fun _ _ => True) boot s ∧
    ∃ i p, s.pipes.table i = some p ∧ p.nReaders = 1 ∧ s.os.held (.pipe i.val .read) = 0 := by
  have counted : ((FdOp.system.after boot sevenPipes).pipes.table ⟨6, by decide⟩).map (·.nReaders) =
      some 1 := by decide +kernel
  obtain ⟨p, live, one⟩ := Option.map_eq_some_iff.mp counted
  refine ⟨FdOp.system.after boot sevenPipes, Stepper.Run.start.follow ?_, ⟨6, by decide⟩, p, live, one,
    by decide +kernel⟩
  exact ⟨trivial, trivial, by decide, trivial, rfl, by decide, trivial, trivial, by decide +kernel,
    trivial, trivial, by decide +kernel, trivial, trivial, by decide +kernel, trivial, trivial,
    by decide +kernel, trivial, trivial, by decide +kernel, trivial, trivial, by decide +kernel,
    trivial, trivial, by decide +kernel, trivial⟩

end FdSys

end CapsuleOS
