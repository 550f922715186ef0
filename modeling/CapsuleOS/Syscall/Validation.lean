import CapsuleOS.Lib.Loop
import CapsuleOS.Arch.PageTable

/-!
# Checking user ranges

`validate_range` probes one address in each page of a range. The step to the next page wraps at the top of
the address space, where the walk goes on from address zero: a range that reaches into the last page is
then never accepted.
-/
namespace CapsuleOS

open Lib

/-- The levels of the walk depend on the page of an address alone. -/
theorem translateUserVa_isSome {m : Mem} {l0Pa x y : Nat} (page : x / 4096 = y / 4096) :
    (translateUserVa m l0Pa x).isSome = (translateUserVa m l0Pa y).isSome := by
  have l0 : vaL0Index x = vaL0Index y := by
    unfold vaL0Index
    omega
  have l1 : vaL1Index x = vaL1Index y := by
    unfold vaL1Index
    omega
  have l2 : vaL2Index x = vaL2Index y := by
    unfold vaL2Index
    omega
  have l3 : vaL3Index x = vaL3Index y := by
    unfold vaL3Index
    omega
  simp only [translateUserVa, PageTableTree.translate, l0, l1, l2, l3]
  split_ifs <;> rfl

namespace Validation

def translate (m : Mem) (va l0Pa : Nat) : Except Status Unit :=
  if l0Pa = 0 then .error .invalidArgs
  else if (translateUserVa m l0Pa va).isNone then .error .invalidArgs
  else .ok ()

/-- The address to look at after `addr`. -/
def nextAddr (end_ addr : Nat) : Nat :=
  let nextPage := wadd (addr / 4096 * 4096) 0x1000
  if nextPage < end_ then nextPage else end_ - 1

/-- One round of the loop, for a range that ends before `end_`. -/
def probe (m : Mem) (l0Pa end_ addr : Nat) : Round Nat (Except Status Unit) :=
  match translate m addr l0Pa with
  | .error e => .leave (.error e)
  | .ok () =>
    if addr ≥ end_ - 1 then .leave do
      translate m addr l0Pa
      let last := end_ - 1
      if last % 4096 ≠ addr % 4096 then translate m last l0Pa
    else .again (nextAddr end_ addr)

/-- The result within `fuel` rounds of the loop, if there is one. -/
def validateRange (fuel : Nat) (m : Mem) (ptr len l0Pa : Nat) : Option (Except Status Unit) :=
  if len = 0 then some (translate m ptr l0Pa)
  else if ptr + len ≥ 2 ^ 64 then some (.error .invalidArgs)
  else Round.loop (probe m l0Pa (ptr + len)) fuel ptr

/-- `validate_range` returns `r`. -/
def Returns (m : Mem) (ptr len l0Pa : Nat) (r : Except Status Unit) : Prop :=
  ∃ fuel, validateRange fuel m ptr len l0Pa = some r

/-! ## What is checked -/

/-- The page with this number contains a byte of the range. -/
def Touches (ptr len page : Nat) : Prop := ∃ b, ptr ≤ b ∧ b < ptr + len ∧ b / 4096 = page

def PageTranslates (m : Mem) (l0Pa page : Nat) : Prop :=
  ∀ k < 4096, translate m (page * 4096 + k) l0Pa = .ok ()

/-- `validate_range` returns, and it accepts the ranges that end in the address space and of which every
page translates. -/
structure Exact (m : Mem) (ptr len l0Pa : Nat) : Prop where
  returns : ∃ r, Returns m ptr len l0Pa r
  accepts : Returns m ptr len l0Pa (.ok ()) ↔
    ptr + len ≤ 2 ^ 64 - 1 ∧ ∀ page, Touches ptr len page → PageTranslates m l0Pa page

variable {m : Mem} {l0Pa ptr len end_ addr x y : Nat} {r : Except Status Unit}

theorem translate_page (page : x / 4096 = y / 4096) : translate m x l0Pa = translate m y l0Pa := by
  have some_iff : (translateUserVa m l0Pa x).isSome = (translateUserVa m l0Pa y).isSome :=
    translateUserVa_isSome page
  simp only [translate, ← Option.not_isSome, some_iff]

theorem pageTranslates_iff : PageTranslates m l0Pa (x / 4096) ↔ translate m x l0Pa = .ok () := by
  constructor
  · intro h
    have here := h (x % 4096) (Nat.mod_lt _ (by decide))
    rwa [show x / 4096 * 4096 + x % 4096 = x by omega] at here
  · intro h k hk
    rw [← h]
    exact translate_page (by omega)

/-- Every page of the range translates when every byte does. -/
theorem pages_iff : (∀ page, Touches ptr len page → PageTranslates m l0Pa page) ↔
    ∀ x, ptr ≤ x → x < ptr + len → translate m x l0Pa = .ok () := by
  constructor
  · exact fun h x ge lt => pageTranslates_iff.mp (h _ ⟨x, ge, lt, rfl⟩)
  · rintro h _ ⟨x, ge, lt, rfl⟩
    exact pageTranslates_iff.mpr (h x ge lt)

/-! ## One round -/

/-- What a round at `addr` does. -/
inductive Probed (m : Mem) (l0Pa end_ addr : Nat) : Round Nat (Except Status Unit) → Prop where
  | fails (e : Status) (h : translate m addr l0Pa ≠ .ok ()) : Probed m l0Pa end_ addr (.leave (.error e))
  | last (h : translate m addr l0Pa = .ok ()) (here : end_ - 1 ≤ addr) (r : Except Status Unit)
      (tail : addr = end_ - 1 → r = .ok ()) : Probed m l0Pa end_ addr (.leave r)
  | next (h : translate m addr l0Pa = .ok ()) (before : addr < end_ - 1) :
      Probed m l0Pa end_ addr (.again (nextAddr end_ addr))

theorem probed : Probed m l0Pa end_ addr (probe m l0Pa end_ addr) := by
  unfold probe
  cases here : translate m addr l0Pa with
  | error e =>
    refine .fails e ?_
    rw [here]
    exact fun eq => by cases eq
  | ok u =>
    by_cases ge : addr ≥ end_ - 1
    · simp only [if_pos ge]
      refine .last here ge _ fun eq => ?_
      rw [if_neg (not_not.mpr (congrArg (· % 4096) eq.symm))]
      rfl
    · simp only [if_neg ge]
      exact .next here (Nat.lt_of_not_le ge)

/-- Below the last page of the address space the next probe is in the next page, or at the last byte. -/
theorem nextAddr_below (before : addr < end_ - 1)
    (below : addr < 2 ^ 64 - 4096) :
    addr < nextAddr end_ addr ∧ nextAddr end_ addr < end_ ∧
      nextAddr end_ addr / 4096 ≤ addr / 4096 + 1 := by
  unfold nextAddr
  rw [wadd_eq (by omega)]
  dsimp only
  split_ifs <;> omega

/-- For a range that reaches behind the start of the last page no probe gets to its last byte. -/
theorem nextAddr_short (high : end_ < 2 ^ 64) (top : 2 ^ 64 - 4095 < end_) :
    nextAddr end_ addr < end_ - 1 := by
  unfold nextAddr wadd
  dsimp only
  split_ifs <;> omega

/-! ## All rounds -/

theorem returns_iff (pos : 0 < len) (high : ptr + len < 2 ^ 64) :
    Returns m ptr len l0Pa r ↔ Round.Leaves (probe m l0Pa (ptr + len)) ptr r := by
  refine exists_congr fun fuel => ?_
  rw [validateRange, if_neg (Nat.pos_iff_ne_zero.mp pos), if_neg (Nat.not_le_of_lt high)]

theorem returns_iff_refused (pos : 0 < len) (past : 2 ^ 64 ≤ ptr + len) :
    Returns m ptr len l0Pa r ↔ r = .error .invalidArgs := by
  have refused : ∀ fuel, validateRange fuel m ptr len l0Pa = some (.error .invalidArgs) := by
    intro fuel
    rw [validateRange, if_neg (Nat.pos_iff_ne_zero.mp pos), if_pos past]
  constructor
  · rintro ⟨fuel, run⟩
    exact Option.some.inj (run.symm.trans (refused fuel))
  · rintro rfl
    exact ⟨0, refused 0⟩

/-- No error so far: the pages before that of `addr` translate. -/
structure Passed (m : Mem) (l0Pa ptr end_ addr : Nat) : Prop where
  ge : ptr ≤ addr
  lt : addr < end_
  pages : ∀ x, ptr ≤ x → x / 4096 < addr / 4096 → translate m x l0Pa = .ok ()

/-- The loop does not wrap, or it meets a page that is not there before it does. -/
def NoWrap (m : Mem) (ptr len l0Pa : Nat) : Prop :=
  len = 1 ∨ ptr + len ≤ 2 ^ 64 - 4095 ∨ 2 ^ 64 ≤ ptr + len ∨
    ∃ page, Touches ptr len page ∧ ¬ PageTranslates m l0Pa page

theorem Passed.next (high : ptr + len < 2 ^ 64) (noWrap : NoWrap m ptr len l0Pa)
    (h : Passed m l0Pa ptr (ptr + len) addr) (here : translate m addr l0Pa = .ok ())
    (before : addr < ptr + len - 1) :
    Passed m l0Pa ptr (ptr + len) (nextAddr (ptr + len) addr) ∧
      ptr + len - nextAddr (ptr + len) addr < ptr + len - addr := by
  have ge := h.ge
  have upTo : ∀ x, ptr ≤ x → x / 4096 ≤ addr / 4096 → translate m x l0Pa = .ok () := by
    intro x hx le
    by_cases same : x / 4096 = addr / 4096
    · rw [translate_page same, here]
    · exact h.pages x hx (by omega)
  have below : addr < 2 ^ 64 - 4096 := by
    rcases noWrap with one | low | past | ⟨_, ⟨x, hx, lt, rfl⟩, missing⟩
    · omega
    · omega
    · omega
    · by_contra top
      exact missing (pageTranslates_iff.mpr (upTo x hx (by omega)))
  obtain ⟨up, lt, near⟩ := nextAddr_below before below
  exact ⟨⟨by omega, lt, fun x hx less => upTo x hx (by omega)⟩, by omega⟩

/-- The loop returns, and it accepts when no page of the range is missing. -/
theorem loop_exact (pos : 0 < len) (high : ptr + len < 2 ^ 64) (noWrap : NoWrap m ptr len l0Pa) :
    ∃ r, Round.Leaves (probe m l0Pa (ptr + len)) ptr r ∧
      (r = .ok () ↔ ∀ x, ptr ≤ x → x < ptr + len → translate m x l0Pa = .ok ()) := by
  have start : Passed m l0Pa ptr (ptr + len) ptr := ⟨le_rfl, by omega, fun x hx lt => by omega⟩
  have again : ∀ addr next, Passed m l0Pa ptr (ptr + len) addr →
      probe m l0Pa (ptr + len) addr = .again next →
      Passed m l0Pa ptr (ptr + len) next ∧ ptr + len - next < ptr + len - addr := by
    intro addr next h turn
    have round : Probed m l0Pa (ptr + len) addr _ := probed
    rw [turn] at round
    cases round with
    | next here before => exact h.next high noWrap here before
  obtain ⟨r, ended⟩ := Round.exists_leaves (fun addr => ptr + len - addr) start again
  refine ⟨r, ended, ended.post (Q := fun r => r = .ok () ↔ _) start
    (fun addr next h turn => (again addr next h turn).1) ?_⟩
  intro addr r h turn
  have round : Probed m l0Pa (ptr + len) addr _ := probed
  rw [turn] at round
  cases round with
  | fails e missing =>
    constructor
    · rintro ⟨⟩
    · exact fun all => absurd (all addr h.ge h.lt) missing
  | last here end_le r tail =>
    have lt := h.lt
    refine ⟨fun _ x ge less => ?_, fun _ => tail (by omega)⟩
    by_cases same : x / 4096 = addr / 4096
    · rw [translate_page same, here]
    · exact h.pages x ge (by omega)

/-- A range of two bytes or more that ends in the last page is never accepted. -/
theorem never_accepts (top : 2 ^ 64 - 4095 < ptr + len) (high : ptr + len < 2 ^ 64) (two : 2 ≤ len) :
    ¬ Returns m ptr len l0Pa (.ok ()) := by
  intro accepted
  have ended := (returns_iff (by omega) high).mp accepted
  refine ended.post (I := fun addr => addr < ptr + len - 1) (Q := fun r => r ≠ .ok ()) (by omega) ?_ ?_ rfl
  · intro addr next before turn
    have round : Probed m l0Pa (ptr + len) addr _ := probed
    rw [turn] at round
    cases round with
    | next here _ => exact nextAddr_short high top
  · intro addr r before turn
    have round : Probed m l0Pa (ptr + len) addr _ := probed
    rw [turn] at round
    cases round with
    | fails e missing => exact fun eq => by cases eq
    | last here end_le r tail => omega

end Validation

open Validation in
theorem validate_range_exact {m : Mem} {ptr len l0Pa : Nat} (pos : 0 < len) :
    Validation.Exact m ptr len l0Pa ↔ len = 1 ∨ ptr + len ≤ 2 ^ 64 - 4095 ∨ 2 ^ 64 ≤ ptr + len ∨
      ∃ page, Touches ptr len page ∧ ¬ PageTranslates m l0Pa page := by
  constructor
  · intro exact_
    by_contra wraps
    push Not at wraps
    obtain ⟨many, top, high, pages⟩ := wraps
    refine never_accepts (by omega) high (by omega) (exact_.accepts.mpr ⟨by omega, pages⟩)
  · intro noWrap
    by_cases high : ptr + len < 2 ^ 64
    · obtain ⟨r, ended, iff⟩ := loop_exact pos high noWrap
      refine ⟨⟨r, (returns_iff pos high).mpr ended⟩, ?_⟩
      rw [returns_iff pos high, pages_iff, ← iff]
      constructor
      · exact fun accepted => ⟨by omega, ended.unique accepted⟩
      · rintro ⟨_, rfl⟩
        exact ended
    · have past : 2 ^ 64 ≤ ptr + len := Nat.le_of_not_lt high
      refine ⟨⟨_, (returns_iff_refused pos past).mpr rfl⟩, ?_⟩
      rw [returns_iff_refused pos past]
      constructor
      · rintro ⟨⟩
      · rintro ⟨le, _⟩
        omega

namespace Validation

/-- Tables in which the last gibibyte of addresses is there, as one block, and nothing else. -/
def topBlock : Mem := writePte (writePte (fun _ => 0) 0x1000 511 0x2003) 0x2000 511 1

theorem topBlock_page : PageTranslates topBlock 0x1000 (2 ^ 52 - 1) := by
  have first : translate topBlock ((2 ^ 52 - 1) * 4096) 0x1000 = .ok () := by decide +kernel
  rwa [← pageTranslates_iff, Nat.mul_div_cancel _ (by decide)] at first

end Validation

open Validation in
/-- A byte of the last page. -/
theorem validate_range_exact_top : Validation.Exact topBlock (2 ^ 64 - 4096) 1 0x1000 :=
  (validate_range_exact (by decide)).mpr (.inl rfl)

open Validation in
/-- Two bytes of the last page: the page is there and the range is refused. -/
theorem top_range_refused : ¬ ∀ (m : Mem) (ptr len l0Pa : Nat), 0 < len →
    Validation.Exact m ptr len l0Pa := by
  intro claim
  have exact_ := claim topBlock (2 ^ 64 - 4096) 2 0x1000 (by decide)
  refine never_accepts (by decide) (by decide) le_rfl (exact_.accepts.mpr ⟨by decide, ?_⟩)
  rintro _ ⟨x, ge, lt, rfl⟩
  rw [show x / 4096 = 2 ^ 52 - 1 by omega]
  exact topBlock_page

end CapsuleOS
