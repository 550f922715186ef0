import CapsuleOS.Libc.Entry

/-!
# The arguments of a program

`libstd::env::args` walks over the table of libc. An argument is copied byte by byte into a string with room for 64
bytes, and the errors of the pushes are dropped; an empty argument ends the walk.
-/
namespace CapsuleOS.Libstd

open Lib Libc

abbrev ErrorText := String

def vecCapacity : Nat := 64

structure Vec (α : Type) where
  items : List α
  fits : items.length ≤ vecCapacity

namespace Vec

variable {α : Type}

def new : Vec α := ⟨[], Nat.zero_le _⟩

def push (v : Vec α) (value : α) : Except ErrorText (Vec α) :=
  if h : v.items.length ≥ vecCapacity then .error "Vec: capacity exceeded"
  else .ok ⟨v.items ++ [value], by rw [List.length_append, List.length_singleton]; omega⟩

end Vec

structure String where
  buf : Vec UInt8

namespace String

def new : String := ⟨Vec.new⟩

def pushByte (s : String) (b : UInt8) : Except ErrorText String := (s.buf.push b).map String.mk

def asBytes (s : String) : List UInt8 := s.buf.items

/-- `for &b in arg_bytes { let _ = s.push_byte(b); }` -/
def pushAll (s : String) (bytes : List UInt8) : String :=
  bytes.foldl (fun s b => (s.pushByte b).toOption.getD s) s

end String

structure Args where
  index : Nat
  count : Nat

namespace Args

def next (m : Mem) (t : ArgTable) (a : Args) : Option String × Args :=
  if a.index ≥ a.count then (none, a)
  else
    let argBytes := hnxArg m t a.index
    let a := { a with index := a.index + 1 }
    if argBytes.isEmpty then (none, a) else (some (String.new.pushAll argBytes), a)

/-- `env::args`; the count is converted to `usize`. -/
def args (t : ArgTable) : Args := ⟨0, (BitVec.ofInt 64 (hnxArgc t)).toNat⟩

/-- The items that a loop over the iterator sees, the loop going round `fuel` times at most. -/
def iterate (m : Mem) (t : ArgTable) : Nat → Args → Option (List String)
  | 0, _ => none
  | fuel + 1, a =>
    match a.next m t with
    | (none, _) => some []
    | (some s, a) => (iterate m t fuel a).map (s :: ·)

end Args

/-! ## What is yielded -/

theorem pushByte_items (s : String) (b : UInt8) :
    ((s.pushByte b).toOption.getD s).asBytes = (s.asBytes ++ [b]).take vecCapacity := by
  have fits : s.asBytes.length ≤ vecCapacity := s.buf.fits
  rw [String.pushByte, Vec.push]
  split
  · rename_i full
    rw [List.take_append_of_le_length (show vecCapacity ≤ s.asBytes.length from full), List.take_of_length_le fits]
    rfl
  · rename_i room
    rw [List.take_of_length_le]
    · rfl
    · rw [List.length_append, List.length_singleton]
      exact Nat.lt_of_not_ge room

theorem take_take_append {α : Type} (n : Nat) (xs ys : List α) : (xs.take n ++ ys).take n = (xs ++ ys).take n := by
  have room : n - min n xs.length = n - xs.length := by omega
  rw [List.take_append, List.take_append, List.take_take, Nat.min_self, List.length_take, room]

/-- What does not fit is lost. -/
theorem pushAll_items (s : String) (bytes : List UInt8) :
    (s.pushAll bytes).asBytes = (s.asBytes ++ bytes).take vecCapacity := by
  induction bytes generalizing s with
  | nil =>
    have fits : s.asBytes.length ≤ vecCapacity := s.buf.fits
    rw [List.append_nil, List.take_of_length_le fits]
    rfl
  | cons b bytes ih =>
    have rest := ih ((s.pushByte b).toOption.getD s)
    rw [pushByte_items, take_take_append, ← List.append_cons] at rest
    exact rest

/-- The arguments before the first empty one, cut off after 64 bytes. -/
def yielded (arguments : List (List UInt8)) : List (List UInt8) :=
  (arguments.takeWhile (· ≠ [])).map (·.take vecCapacity)

theorem yielded_eq_iff (arguments : List (List UInt8)) :
    yielded arguments = arguments ↔ ∀ a ∈ arguments, a ≠ [] ∧ a.length ≤ vecCapacity := by
  induction arguments with
  | nil => exact iff_of_true rfl (by simp)
  | cons a as ih =>
    rw [yielded, List.takeWhile_cons]
    by_cases empty : a = []
    · rw [if_neg (by simpa using empty)]
      exact iff_of_false (by simp) fun all => (all a List.mem_cons_self).1 empty
    · rw [if_pos (by simpa using empty), List.map_cons, List.cons.injEq, List.forall_mem_cons, ← ih,
        List.take_eq_self_iff]
      exact and_congr_left fun _ => ⟨fun short => ⟨empty, short⟩, And.right⟩

section Yield

variable {m : Mem} {t : ArgTable} {argv : Nat} {argcRaw : BitVec 64} {a : List UInt8} {i fuel : Nat}

theorem arguments_getElem? (nth : (t.arguments m)[i]? = some a) :
    ∃ h : i < argSlots, i < t.argc.toNat ∧ t.argument m ⟨i, h⟩ = a := by
  rw [ArgTable.arguments, List.getElem?_map, List.getElem?_take] at nth
  split_ifs at nth with lt
  · obtain ⟨j, slot, rfl⟩ := Option.map_eq_some_iff.mp nth
    obtain ⟨h, rfl⟩ := List.getElem?_eq_some_iff.mp slot
    rw [List.length_finRange] at h
    refine ⟨h, lt, ?_⟩
    rw [List.getElem_finRange]
    rfl
  · cases nth

theorem arguments_nth (i : Fin argSlots) (lt : i.val < t.argc.toNat) :
    (t.arguments m)[i.val]? = some (t.argument m i) := by
  rw [ArgTable.arguments, List.getElem?_map, List.getElem?_take, if_pos lt]
  simp

theorem arguments_length (count : t.argc ≤ argSlots) : (t.arguments m).length = t.argc.toNat := by
  rw [ArgTable.arguments, List.length_map, List.length_take, List.length_finRange]
  omega

theorem hnxArg_eq (setup : hnxUserEntry m argcRaw argv = some t) (nth : (t.arguments m)[i]? = some a) :
    hnxArg m t i = a := by
  obtain ⟨nonneg, bound, slots⟩ := hnxUserEntry_table setup
  obtain ⟨slot, lt, rfl⟩ := arguments_getElem? nth
  have index : (BitVec.ofNat 32 i).toInt = i := by
    have small : i < 16 := slot
    rw [BitVec.toInt_eq_toNat_of_lt] <;> rw [BitVec.toNat_ofNat] <;> omega
  have below : ¬((i : Int) ≥ t.argc) := by omega
  have filled := slots ⟨i, slot⟩ lt
  rw [hnxArg, dif_pos slot, index, if_neg below]
  split_ifs with absent
  · have zero : t.lens ⟨i, slot⟩ = 0 := by
      by_contra some_byte
      exact absent.elim (filled.present some_byte) some_byte
    rw [ArgTable.argument, zero]
    rfl
  · rfl

theorem args_count (setup : hnxUserEntry m argcRaw argv = some t) (count : t.argc ≤ argSlots) :
    Args.args t = ⟨0, (t.arguments m).length⟩ := by
  obtain ⟨nonneg, bound, -⟩ := hnxUserEntry_table setup
  have convert : (BitVec.ofInt 64 t.argc).toNat = t.argc.toNat := by
    rw [BitVec.toNat_ofInt]
    omega
  rw [Args.args, hnxArgc, convert, arguments_length count]

/-- The walk from argument `i` on. -/
theorem iterate_yields (setup : hnxUserEntry m argcRaw argv = some t) {rest : List (List UInt8)}
    (ahead : (t.arguments m).drop i = rest) (enough : rest.length < fuel) :
    ∃ items, Args.iterate m t fuel ⟨i, (t.arguments m).length⟩ = some items ∧
      items.map String.asBytes = yielded rest := by
  induction rest generalizing i fuel with
  | nil =>
    obtain ⟨fuel, rfl⟩ := Nat.exists_eq_succ_of_ne_zero (Nat.ne_zero_of_lt enough)
    have past : i ≥ (t.arguments m).length := List.drop_eq_nil_iff.mp ahead
    refine ⟨[], ?_, rfl⟩
    rw [Args.iterate, Args.next, if_pos past]
  | cons a rest ih =>
    obtain ⟨fuel, rfl⟩ := Nat.exists_eq_succ_of_ne_zero (Nat.ne_zero_of_lt enough)
    have nth : (t.arguments m)[i]? = some a := by
      rw [← Nat.add_zero i, ← List.getElem?_drop, ahead]
      rfl
    have later : (t.arguments m).drop (i + 1) = rest := by
      rw [← List.tail_drop, ahead, List.tail_cons]
    have inside : ¬ i ≥ (t.arguments m).length := Nat.not_le.mpr (List.getElem?_eq_some_iff.mp nth).1
    rw [Args.iterate, Args.next, if_neg inside, hnxArg_eq setup nth, yielded, List.takeWhile_cons]
    by_cases empty : a = []
    · rw [empty]
      exact ⟨[], rfl, rfl⟩
    · obtain ⟨items, run, bytes⟩ := ih later (Nat.lt_of_succ_lt_succ enough)
      rw [if_neg (by simpa using empty), if_pos (by simpa using empty)]
      refine ⟨String.new.pushAll a :: items, by simp only [run, Option.map_some], ?_⟩
      rw [List.map_cons, List.map_cons, bytes, pushAll_items]
      rfl

/-- One item for each argument, with its bytes. -/
def Yields (m : Mem) (t : ArgTable) (items : List String) : Prop :=
  items.length = t.argc ∧ ∀ i : Fin argSlots, i.val < t.argc.toNat →
    (items[i.val]?).map String.asBytes = some (t.argument m i)

theorem yields_iff (setup : hnxUserEntry m argcRaw argv = some t) (count : t.argc ≤ argSlots)
    {items : List String} : Yields m t items ↔ items.map String.asBytes = t.arguments m := by
  have nonneg := (hnxUserEntry_table setup).1
  have argc := arguments_length (m := m) count
  constructor
  · rintro ⟨length, bytes⟩
    refine List.ext_getElem? fun i => ?_
    rw [List.getElem?_map]
    by_cases lt : i < t.argc.toNat
    · have slot : i < argSlots := by omega
      rw [bytes ⟨i, slot⟩ lt, arguments_nth ⟨i, slot⟩ lt]
    · rw [List.getElem?_eq_none (by omega), List.getElem?_eq_none (by omega)]
      rfl
  · intro same
    have length : items.length = (t.arguments m).length := by rw [← same, List.length_map]
    refine ⟨by omega, fun i lt => ?_⟩
    rw [← List.getElem?_map, same, arguments_nth i lt]

theorem mem_arguments {p : List UInt8 → Prop} :
    (∀ a ∈ t.arguments m, p a) ↔ ∀ i : Fin argSlots, i.val < t.argc.toNat → p (t.argument m i) := by
  constructor
  · exact fun all i lt => all _ (List.mem_of_getElem? (arguments_nth i lt))
  · intro all a mem
    obtain ⟨i, nth⟩ := List.getElem?_of_mem mem
    obtain ⟨slot, lt, rfl⟩ := arguments_getElem? nth
    exact all ⟨i, slot⟩ lt

end Yield

theorem asBytes_injective : Function.Injective String.asBytes := by
  rintro ⟨⟨xs, _⟩⟩ ⟨⟨ys, _⟩⟩ same
  cases (same : xs = ys)
  rfl

/-- A loop over the arguments ends, and sees every argument exactly if none is empty or longer than 64 bytes. -/
theorem args_yields_iff (m : Mem) (argcRaw : BitVec 64) (argvRaw : Nat) (t : ArgTable)
    (setup : hnxUserEntry m argcRaw argvRaw = some t) (count : t.argc ≤ argSlots) :
    ∃ items, (∀ fuel : Nat, t.argc < fuel → Args.iterate m t fuel (Args.args t) = some items) ∧
      (Yields m t items ↔ ∀ i : Fin argSlots, i.val < t.argc.toNat → 0 < t.lens i ∧ t.lens i ≤ 64) := by
  have nonneg := (hnxUserEntry_table setup).1
  have length := arguments_length (m := m) count
  have walk := fun fuel (enough : (t.arguments m).length < fuel) =>
    iterate_yields setup (List.drop_zero (l := t.arguments m)) enough
  obtain ⟨items, -, bytes⟩ := walk _ (Nat.lt_succ_self _)
  refine ⟨items, fun fuel enough => ?_, ?_⟩
  · obtain ⟨items', run, bytes'⟩ := walk fuel (by omega)
    rw [args_count setup count, run, List.map_injective_iff.mpr asBytes_injective (bytes'.trans bytes.symm)]
  · rw [yields_iff setup count, bytes, yielded_eq_iff, mem_arguments]
    refine forall₂_congr fun i _ => ?_
    rw [ArgTable.argument, Mem.load_length, ← List.length_pos_iff, Mem.load_length]
    rfl

/-- Three pointers at 4096, to the strings `osh`, `-n` and `notes` from 8192 on. -/
def threeStrings : Mem := fun x =>
  if 4096 ≤ x ∧ x < 4120 then
    ([0, 32, 0, 0, 0, 0, 0, 0, 4, 32, 0, 0, 0, 0, 0, 0, 7, 32, 0, 0, 0, 0, 0, 0] : List UInt8).getD (x - 4096) 0
  else ([111, 115, 104, 0, 45, 110, 0, 110, 111, 116, 101, 115, 0] : List UInt8).getD (x - 8192) 0

/-- A program with three arguments of different lengths. -/
theorem args_yields_iff_three : ∃ t items, hnxUserEntry threeStrings 3 4096 = some t ∧
    t.arguments threeStrings = [[111, 115, 104], [45, 110], [110, 111, 116, 101, 115]] ∧
    Yields threeStrings t items := by
  obtain ⟨t, setup⟩ : ∃ t, hnxUserEntry threeStrings 3 4096 = some t := Option.isSome_iff_exists.mp (by decide)
  have facts : (hnxUserEntry threeStrings 3 4096).all (fun t => t.argc ≤ 16 ∧
      t.arguments threeStrings = [[111, 115, 104], [45, 110], [110, 111, 116, 101, 115]] ∧
      ∀ i : Fin argSlots, i.val < t.argc.toNat → 0 < t.lens i ∧ t.lens i ≤ 64) = true := by decide
  rw [setup, Option.all_some, decide_eq_true_eq] at facts
  obtain ⟨count, arguments, lens⟩ := facts
  obtain ⟨items, -, yields⟩ := args_yields_iff threeStrings 3 4096 t setup count
  exact ⟨t, items, setup, arguments, yields.mpr lens⟩

/-- Two pointers at 4096, to an empty string at 8192 and to the string `a` at 8193. -/
def emptyFirst : Mem := fun x =>
  if x = 4097 ∨ x = 4105 then 32 else if x = 4104 then 1 else if x = 8193 then 97 else 0

/-- With both arguments the walk ends before it begins. -/
theorem empty_argument_ends : ¬ ∀ m argcRaw argvRaw t, hnxUserEntry m argcRaw argvRaw = some t →
    t.argc ≤ argSlots → ∃ items, (∀ fuel : Nat, t.argc < fuel → Args.iterate m t fuel (Args.args t) = some items) ∧
      Yields m t items := by
  intro claim
  obtain ⟨t, setup⟩ : ∃ t, hnxUserEntry emptyFirst 2 4096 = some t := Option.isSome_iff_exists.mp (by decide)
  have facts : (hnxUserEntry emptyFirst 2 4096).all (fun t => t.argc = 2 ∧ t.argc ≤ 16 ∧
      t.arguments emptyFirst = [[], [97]]) = true := by decide
  rw [setup, Option.all_some, decide_eq_true_eq] at facts
  obtain ⟨argc, count, arguments⟩ := facts
  obtain ⟨items, run, yields⟩ := claim emptyFirst 2 4096 t setup count
  have enough : (t.arguments emptyFirst).length < 3 := by
    rw [arguments]
    decide
  obtain ⟨items', run', bytes⟩ := iterate_yields setup List.drop_zero enough
  have same : items = items' := by
    have here := run 3 (by rw [argc]; decide)
    rw [args_count setup count, run'] at here
    exact (Option.some.inj here).symm
  rw [yields_iff setup count, same, bytes, arguments] at yields
  cases yields

end CapsuleOS.Libstd
