import CapsuleOS.Task.Launch

/-!
# Arguments and the first stack pointer

A launch copies the arguments to the top of the new stack and sets two registers: `x1` to the array of
pointers and `user_sp` to the first aligned address behind it. The stack grows downward, so that the
arguments are in the way of the first push.
-/
namespace CapsuleOS

open Lib

namespace Argv

/-! ## Room on the stack -/

theorem padded_le {n : Nat} (h : n ≤ 256) : padded n ≤ 256 := by
  unfold padded
  omega

/-- Room that the strings take. -/
def room (strs : List (List UInt8)) : Nat := (strs.map fun s => padded s.length).sum

theorem room_cons (s : List UInt8) (ss : List (List UInt8)) :
    room (s :: ss) = padded s.length + room ss := rfl

theorem room_le (strs : List (List UInt8)) (len : ∀ s ∈ strs, s.length ≤ 256) :
    room strs ≤ 256 * strs.length := by
  induction strs with
  | nil => simp [room]
  | cons s ss ih =>
    have first := padded_le (len s (by simp))
    have rest := ih fun t mem => len t (by simp [mem])
    simp only [room, List.map_cons, List.sum_cons, List.length_cons] at rest ⊢
    omega

/-- The addresses of strings that stand behind each other from `cursor` on. -/
def addresses : List (List UInt8) → Nat → List Nat
  | [], _ => []
  | s :: ss, cursor => cursor :: addresses ss (cursor + padded s.length)

/-- Where the strings begin. -/
def sp (a : Argv) : Nat := (stackTop - a.area) / 16 * 16

/-- Where the array of pointers is. -/
def argvPtr (a : Argv) : Nat := a.sp + room a.strs

/-- The strings, the array and their zero bytes fit in the stack. -/
theorem bounds (a : Argv) : stackVa ≤ a.sp ∧
    a.sp + room a.strs + a.strs.length * 8 + 16 ≤ stackTop := by
  have count := a.count_le
  have strings := room_le a.strs a.len_le
  have area : a.area = a.strs.length * 8 + room a.strs + 16 := rfl
  have top : stackTop = stackVa + 0x4000 := rfl
  unfold sp
  omega

/-! ## What the program gets -/

/-- The arguments on the new stack, with `user_sp` and `x1` as the result. -/
def enter (a : Argv) (l0Pa : Nat) : MmM (Nat × Nat) := do
  if a.strs.length > 0 then
    let newSp := (stackTop - a.area) / 16 * 16
    let (vas, argvPtrVa) ← copyStrings l0Pa a.strs newSp
    Prog.forEach (fun p => safeCopyToUser l0Pa (Mem.toBytes 8 p.1) (argvPtrVa + p.2 * 8)) vas.zipIdx
    return ((argvPtrVa + a.strs.length * 8 + 15) / 16 * 16, argvPtrVa)
  else return (stackTop, 0)

theorem materialise_eq_enter (a : Argv) (l0Pa : Nat) :
    a.materialise l0Pa = (do let _ ← a.enter l0Pa) := by
  funext mm
  unfold materialise enter
  split_ifs
  · simp only [Prog.bind_apply]
    cases copyStrings l0Pa a.strs ((stackTop - a.area) / 16 * 16) mm with
    | err e u => rfl
    | fault u => rfl
    | ok out u =>
      simp only
      cases Prog.forEach (fun p : Nat × Nat => safeCopyToUser l0Pa (Mem.toBytes 8 p.1) (out.2 + p.2 * 8))
        out.1.zipIdx u <;> rfl
  · rfl

/-- The first stack pointer. -/
def userSp (a : Argv) : Nat :=
  if a.strs.length > 0 then (a.argvPtr + a.strs.length * 8 + 15) / 16 * 16 else stackTop

/-- The first `x1`. -/
def argvVa (a : Argv) : Nat := if a.strs.length > 0 then a.argvPtr else 0

theorem copyStrings_ok {l0Pa : Nat} {strs : List (List UInt8)} {cursor : Nat} {mm mm' : Mm}
    {out : List Nat × Nat} (run : copyStrings l0Pa strs cursor mm = .ok out mm') :
    out = (addresses strs cursor, cursor + room strs) := by
  induction strs generalizing cursor mm mm' out with
  | nil =>
    cases run
    rfl
  | cons s ss ih =>
    obtain ⟨_, u, _, run⟩ := Prog.bind_eq_ok run
    obtain ⟨_, v, _, run⟩ := Prog.bind_eq_ok run
    obtain ⟨rest, w, tail, run⟩ := Prog.bind_eq_ok run
    obtain rfl := ih tail
    cases run
    rw [room_cons, ← Nat.add_assoc]
    rfl

/-- A launch that gets through hands out these two registers. -/
theorem enter_ok {a : Argv} {l0Pa : Nat} {mm mm' : Mm} {out : Nat × Nat}
    (run : a.enter l0Pa mm = .ok out mm') : out = (a.userSp, a.argvVa) := by
  unfold enter at run
  unfold userSp argvVa
  split_ifs at run ⊢
  · obtain ⟨strings, u, copied, run⟩ := Prog.bind_eq_ok run
    obtain rfl := copyStrings_ok copied
    obtain ⟨_, v, _, run⟩ := Prog.bind_eq_ok run
    cases run
    rfl
  · cases run
    rfl

/-- The byte at `x` belongs to an argument, or to the array of pointers. -/
inductive Occupies (a : Argv) (x : Nat) : Prop where
  | string (i va : Nat) (s : List UInt8) (nth : a.strs[i]? = some s)
      (place : (addresses a.strs a.sp)[i]? = some va) (low : va ≤ x) (high : x < va + s.length)
  | pointer (low : a.argvPtr ≤ x) (high : x < a.argvPtr + a.strs.length * 8)

/-- What a first stack pointer has to be, and what that is for: whatever is pushed below it, the bytes of
the arguments stay. -/
structure Protected (a : Argv) (userSp : Nat) : Prop where
  aligned : 16 ∣ userSp
  inside : stackVa ≤ userSp ∧ userSp ≤ stackTop
  below : ∀ x, a.Occupies x → userSp ≤ x
  pushes : ∀ (m : Mem) (va : Nat) (bytes : List UInt8), va + bytes.length ≤ userSp →
    ∀ x, a.Occupies x → m.store va bytes x = m x

theorem userSp_aligned (a : Argv) : 16 ∣ a.userSp := by
  unfold userSp
  split_ifs
  · exact Nat.dvd_mul_left 16 _
  · exact ⟨stackTop / 16, rfl⟩

theorem userSp_inside (a : Argv) : stackVa ≤ a.userSp ∧ a.userSp ≤ stackTop := by
  obtain ⟨low, high⟩ := a.bounds
  have top : stackTop = stackVa + 0x4000 := rfl
  unfold userSp argvPtr
  split_ifs <;> omega

/-- The array of pointers ends below the stack pointer, by less than one push. -/
theorem pointers_below (a : Argv) (some_arg : a.strs.length > 0) :
    a.argvPtr + a.strs.length * 8 ≤ a.userSp ∧ a.userSp < a.argvPtr + a.strs.length * 8 + 16 := by
  rw [userSp, if_pos some_arg]
  omega

/-- A push of two registers runs over the last byte of the array. -/
theorem push_overwrites (a : Argv) (some_arg : a.strs.length > 0) (m : Mem) (pushed : List UInt8)
    (len : pushed.length = 16) : ∃ x i, a.Occupies x ∧ m.store (a.userSp - 16) pushed x = pushed.get i := by
  obtain ⟨below, near⟩ := a.pointers_below some_arg
  have low : stackVa ≤ a.userSp := a.userSp_inside.1
  have room : 16 ≤ a.userSp := le_trans (by decide) low
  refine ⟨a.argvPtr + a.strs.length * 8 - 1,
    ⟨a.argvPtr + a.strs.length * 8 - 1 - (a.userSp - 16), by omega⟩, .pointer (by omega) (by omega), ?_⟩
  rw [Mem.store, if_pos (by omega), List.getElem?_eq_getElem (by omega)]
  rfl

/-- The arguments are protected from the stack exactly if there are none. -/
theorem protected_iff (a : Argv) :
    (∀ l0Pa mm out mm', a.enter l0Pa mm = .ok out mm' → out = (a.userSp, a.argvVa)) ∧
      (a.Protected a.userSp ↔ a.strs = []) := by
  refine ⟨fun _ _ _ _ run => enter_ok run, fun safe => ?_, fun empty => ?_⟩
  · by_contra some_arg
    have pos : a.strs.length > 0 := List.length_pos_iff.mpr some_arg
    have first := safe.below a.argvPtr (.pointer le_rfl (by omega))
    have below := (a.pointers_below pos).1
    omega
  · have free : ∀ x, ¬ a.Occupies x := by
      intro x here
      cases here with
      | string i va s nth => simp [empty] at nth
      | pointer low high => simp [empty] at high; omega
    exact ⟨a.userSp_aligned, a.userSp_inside, fun x here => absurd here (free x),
      fun _ _ _ _ x here => absurd here (free x)⟩

/-- A program with one argument, of one byte. -/
def single : Argv := ⟨[[97]], by decide, by decide⟩

/-- Its stack pointer is behind its argument. -/
theorem single_exposed : single.userSp = stackTop - 16 ∧ ¬ single.Protected single.userSp := by
  refine ⟨by decide, fun safe => ?_⟩
  exact absurd (safe.below (stackTop - 48) (.string 0 _ [97] rfl rfl (by decide) (by decide))) (by decide)

end Argv

end CapsuleOS
