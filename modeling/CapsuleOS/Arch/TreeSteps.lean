import CapsuleOS.Arch.Trees

/-!
# The tree below one root

A tree is well formed if every table page is referred to once and every block has a base aligned to
its size. On the way to a page a mapping makes two kinds of steps: it links an empty table into an
invalid entry, or it replaces a block by a table of its parts. Both make leaves finer (`Finer`) and
neither touches a leaf that does not lie behind the entry.
-/
namespace CapsuleOS

open Lib

/-! ## Well-formed trees -/

abbrev IsPath (P : List Nat) : Prop := Radix.IsPath 512 3 P

/-- The table page that the indices lead to. -/
def tableAt (m : Mem) (root : Nat) (P : List Nat) : Option Nat := Radix.follow ref (readPte m) root P

/-- What a leaf covers when `r` indices are left. -/
def leafSpan (r : Nat) : Nat := 4096 * 512 ^ r

theorem leafSpan_one : leafSpan 1 = 2 ^ 21 := by norm_num [leafSpan]
theorem leafSpan_two : leafSpan 2 = 2 ^ 30 := by norm_num [leafSpan]
theorem leafSpan_succ (r : Nat) : leafSpan (r + 1) = leafSpan r * 512 := by
  rw [leafSpan, leafSpan, pow_succ, mul_assoc]

/-- There are no blocks at the root, and the base of a block is aligned to its size. -/
def LeafOk (l : Nat × List Nat) : Prop :=
  isValid l.1 = true → l.2.length ≤ 2 ∧ leafSpan l.2.length ∣ pteAddr l.1

structure WellFormed (m : Mem) (root : Nat) : Prop where
  aligned : pageSize ∣ root
  once : Radix.Once ref (readPte m) 512 3 root
  leaves : ∀ va, LeafOk (leaf m root va)

/-- The allocator will not hand out a table of the tree. -/
def HeldTables (mm : Mm) (root : Nat) : Prop :=
  ∀ P p, IsPath P → tableAt mm.mem root P = some p → mm.Spent p

section Tree

variable {m : Mem} {root va : Nat}

theorem tableAt_aligned (al : pageSize ∣ root) {P : List Nat} {p : Nat}
    (h : tableAt m root P = some p) : pageSize ∣ p := by
  induction P using List.reverseRecOn generalizing p with
  | nil =>
    cases h
    exact al
  | append_singleton P i ih =>
    rw [tableAt, Radix.follow_snoc] at h
    obtain ⟨q, _, link⟩ := Option.bind_eq_some_iff.mp h
    rw [← (ref_eq_some.mp link).2]
    exact pteAddr_aligned _

/-- An empty root is the only table. -/
theorem tableAt_empty (zero : ∀ i < 512, readPte m root i = 0) {P : List Nat} {p : Nat}
    (isPath : IsPath P) (reach : tableAt m root P = some p) : P = [] ∧ p = root := by
  cases P with
  | nil =>
    cases reach
    exact ⟨rfl, rfl⟩
  | cons i P =>
    rw [tableAt, Radix.follow, zero i (isPath.2 i (by simp)), ref_zero] at reach
    cases reach

theorem WellFormed.empty (al : pageSize ∣ root) (zero : ∀ i < 512, readPte m root i = 0) :
    WellFormed m root := by
  refine ⟨al, fun P P' n isP isP' reach reach' => ?_, fun va => ?_⟩
  · rw [(tableAt_empty zero isP reach).1, (tableAt_empty zero isP' reach').1]
  · intro valid
    have stop : (leaf m root va).1 = 0 := by
      rw [leaf, Radix.walk, zero _ (vaL0Index_lt va), ref_zero]
    rw [stop, isValid, Nat.zero_testBit] at valid
    cases valid

theorem isPath_of_sub {P : List Nat} (sub : P <+: vaPath va) (short : P.length ≤ 3) : IsPath P :=
  ⟨short, fun i mem => vaPath_lt va i (sub.subset mem)⟩

theorem leaf_rest_suffix (m : Mem) (root va : Nat) : (leaf m root va).2 <:+ vaPath va :=
  (Radix.walk_rest_suffix root _ _).trans (List.suffix_cons _ _)

/-- The next index is the one that the span of the rest leaves open. -/
theorem index_of_suffix {k : Nat} {rest : List Nat} (h : k :: rest <:+ vaPath va) :
    k = va / leafSpan rest.length % 512 := by
  simp only [vaPath, List.suffix_cons_iff, List.suffix_nil, List.cons.injEq, reduceCtorEq,
    or_false] at h
  rcases h with ⟨rfl, rfl⟩ | ⟨rfl, rfl⟩ | ⟨rfl, rfl⟩ | ⟨rfl, rfl⟩
  · norm_num [vaL0Index, leafSpan]
  · norm_num [vaL1Index, leafSpan]
  · norm_num [vaL2Index, leafSpan]
  · norm_num [vaL3Index, leafSpan]

/-- The walk through the tables agrees with the output of the leaf. -/
theorem translate_eq_of_no_block
    (top : isValid (readPte m root (vaL0Index va)) = true →
      isTable (readPte m root (vaL0Index va)) = true) :
    PageTableTree.translate m root va = leafOutput va (leaf m root va) := by
  by_cases valid : isValid (readPte m root (vaL0Index va)) = true
  · exact translate_eq_leaf (Or.inr ⟨valid, top valid⟩)
  · simp [PageTableTree.translate, leaf, Radix.walk, ref, leafOutput, valid]

theorem WellFormed.translate_eq (h : WellFormed m root) (va : Nat) :
    PageTableTree.translate m root va = leafOutput va (leaf m root va) := by
  refine translate_eq_of_no_block fun valid => ?_
  by_contra block
  have stop : leaf m root va = (readPte m root (vaL0Index va), [vaL1Index va, vaL2Index va,
      vaL3Index va]) := by
    simp [leaf, Radix.walk, ref, valid, block]
  have ok := h.leaves va
  rw [stop] at ok
  exact absurd (ok valid).1 (by simp)

/-- The bits of the address from `n` on. -/
theorem and_mask_of_aligned {e mask n : Nat} (al : 2 ^ n ∣ pteAddr e)
    (bits : ∀ i, mask.testBit i = decide (n ≤ i ∧ i < 48)) (ge : 12 ≤ n) : e &&& mask = pteAddr e := by
  obtain ⟨q, hq⟩ := al
  apply Nat.eq_of_testBit_eq
  intro i
  rw [Nat.testBit_and, bits, testBit_pteAddr]
  by_cases low : i < n
  · have clear : (pteAddr e).testBit i = false := by
      rw [hq, Nat.testBit_two_pow_mul]
      simp [low]
    rw [testBit_pteAddr] at clear
    rw [clear]
    simp [Nat.not_le.mpr low]
  · have above : 12 ≤ i := by omega
    simp [above, Nat.not_lt.mp low]

theorem leafOutput_of_valid {l : Nat × List Nat} (ok : LeafOk l) (valid : isValid l.1 = true) :
    leafOutput va l = some (pteAddr l.1 + va % leafSpan l.2.length) := by
  obtain ⟨e, rest⟩ := l
  obtain ⟨short, al⟩ := ok valid
  have mask1 : ∀ i, (0x0000FFFFFFE00000 : Nat).testBit i = decide (21 ≤ i ∧ i < 48) := fun i => by
    have shape : 0x0000FFFFFFE00000 = (2 ^ 27 - 1) <<< 21 := by decide
    rw [shape, Nat.testBit_shiftLeft, Nat.testBit_two_pow_sub_one]
    grind
  have mask2 : ∀ i, (0x0000FFFFC0000000 : Nat).testBit i = decide (30 ≤ i ∧ i < 48) := fun i => by
    have shape : 0x0000FFFFC0000000 = (2 ^ 18 - 1) <<< 30 := by decide
    rw [shape, Nat.testBit_shiftLeft, Nat.testBit_two_pow_sub_one]
    grind
  rcases rest with _ | ⟨a, _ | ⟨b, _ | ⟨c, rest⟩⟩⟩
  · simp [leafOutput, valid, leafSpan]
  · simp only [List.length_cons, List.length_nil, Nat.zero_add, leafSpan_one] at al ⊢
    simp only [leafOutput, valid, Bool.not_true, Bool.false_eq_true, if_false]
    rw [and_mask_of_aligned al mask1 (by decide)]
  · simp only [List.length_cons, List.length_nil, Nat.zero_add, Nat.reduceAdd, leafSpan_two] at al ⊢
    simp only [leafOutput, valid, Bool.not_true, Bool.false_eq_true, if_false]
    rw [and_mask_of_aligned al mask2 (by decide)]
  · simp at short

end Tree

/-! ## Parts of a block -/

/-- The mask keeps no address bit, and the read-only bit. -/
structure CleanMask (kept : Nat) : Prop where
  addr : ∀ i, 12 ≤ i → i < 48 → kept.testBit i = false
  readOnly : kept.testBit 7 = true

def partType (r : Nat) : Nat := if r = 0 then pteTypePage else pteTypeBlock

/-- Part `k` of a block, as it is stored, when `r` indices are left behind it. -/
def partEntry (kept r e k : Nat) : Nat := blockPart kept (leafSpan r) (partType r) e k

theorem testBit_partMask (i : Nat) :
    (2 ^ 64 - 1 - pteXn - pteUxn).testBit i = (decide (i < 64) && !decide (i = 53 ∨ i = 54)) := by
  have shape : 2 ^ 64 - 1 - pteXn - pteUxn = ((2 ^ 9 - 1) <<< 55) ||| (2 ^ 53 - 1) := by decide
  rw [shape, Nat.testBit_or, Nat.testBit_shiftLeft, Nat.testBit_two_pow_sub_one,
    Nat.testBit_two_pow_sub_one]
  grind

section Parts

variable {kept r e k : Nat}

theorem testBit_partEntry (i : Nat) (ne0 : i ≠ 0) (ne1 : i ≠ 1) :
    (partEntry kept r e k).testBit i =
      ((pteAddr (pteAddr e + k * leafSpan r)).testBit i ||
        ((e.testBit i && kept.testBit i || decide (i = 6)) &&
          (decide (i < 64) && !decide (i = 53 ∨ i = 54)))) := by
  have one : pteValid.testBit i = false := by
    rw [show pteValid = 2 ^ 0 from rfl, Nat.testBit_two_pow]
    simp [ne0.symm]
  have type : (partType r).testBit i = false := by
    have lt : partType r < 2 ^ 2 := by unfold partType; split_ifs <;> decide
    exact testBit_of_lt lt (by omega)
  have user : pteApUser.testBit i = decide (i = 6) := by
    rw [show pteApUser = 2 ^ 6 from rfl, Nat.testBit_two_pow]
    grind
  simp only [partEntry, blockPart, Nat.testBit_or, Nat.testBit_and, one, type, user,
    testBit_partMask, Bool.or_false]

theorem isValid_partEntry : isValid (partEntry kept r e k) = true := by
  have bit : pteValid.testBit 0 = true := by decide
  simp only [isValid, partEntry, blockPart, Nat.testBit_or, bit, Bool.or_true, Bool.true_or]

theorem isTable_partEntry (block : isTable e = false) :
    isTable (partEntry kept r e k) = decide (r = 0) := by
  unfold isTable at block
  have bits : pteValid.testBit 1 = false ∧ pteApUser.testBit 1 = false := by decide
  have type : (partType r).testBit 1 = decide (r = 0) := by
    unfold partType
    split_ifs with zero
    · rw [decide_eq_true zero]
      decide
    · rw [decide_eq_false zero]
      decide
  simp [isTable, partEntry, blockPart, testBit_pteAddr, bits, type, block]

theorem pteAddr_partEntry (clean : CleanMask kept) (fit : pteAddr e + k * leafSpan r < 2 ^ 48) :
    pteAddr (partEntry kept r e k) = pteAddr e + k * leafSpan r := by
  have al : pageSize ∣ pteAddr e + k * leafSpan r :=
    dvd_add (pteAddr_aligned e) ((Dvd.intro _ rfl : pageSize ∣ leafSpan r).mul_left k)
  rw [← pteAddr_of_aligned al fit]
  apply Nat.eq_of_testBit_eq
  intro i
  rw [testBit_pteAddr]
  by_cases addr : 12 ≤ i ∧ i < 48
  · have low : i ≠ 6 := by omega
    rw [testBit_partEntry i (by omega) (by omega), clean.addr i addr.1 addr.2]
    simp [addr, low]
  · rw [testBit_pteAddr]
    simp [addr]

theorem partEntry_lt : partEntry kept r e k < 2 ^ 64 := by
  refine Nat.lt_pow_two_of_testBit _ fun i ge => ?_
  rw [testBit_partEntry i (by omega) (by omega), testBit_pteAddr]
  have low : ¬ i < 48 := by omega
  have word : ¬ i < 64 := by omega
  simp [low, word]

/-- The parts of an aligned block lie inside it. -/
theorem part_fits (al : leafSpan (r + 1) ∣ pteAddr e) (short : r + 1 ≤ 2) (hk : k < 512) :
    pteAddr e + k * leafSpan r < 2 ^ 48 := by
  have lt : pteAddr e < 2 ^ 48 := by
    refine Nat.lt_pow_two_of_testBit _ fun i ge => ?_
    rw [testBit_pteAddr]
    simp [Nat.not_lt.mpr ge]
  obtain ⟨q, hq⟩ := al
  obtain rfl | rfl : r = 0 ∨ r = 1 := by omega
  all_goals
    norm_num [leafSpan] at *
    omega

end Parts

/-! ## Finer leaves -/

/-- A leaf is replaced by one with one index less to go. -/
inductive Finer (kept : Nat) : Nat × List Nat → Nat × List Nat → Prop
  | empty {e k : Nat} {rest : List Nat} (invalid : isValid e = false) :
    Finer kept (e, k :: rest) (0, rest)
  | part {e k : Nat} {rest : List Nat} (valid : isValid e = true) (block : isTable e = false) :
    Finer kept (e, k :: rest) (partEntry kept rest.length e k, rest)

abbrev Refined (kept : Nat) : Nat × List Nat → Nat × List Nat → Prop :=
  Relation.ReflTransGen (Finer kept)

section Finer

variable {kept va : Nat} {l l' : Nat × List Nat}

theorem Finer.suffix (h : Finer kept l l') : l'.2 <:+ l.2 := by
  cases h with
  | empty invalid => exact List.suffix_cons _ _
  | part valid block => exact List.suffix_cons _ _

theorem Finer.leafOk (clean : CleanMask kept) (h : Finer kept l l') (ok : LeafOk l)
    (on : l.2 <:+ vaPath va) : LeafOk l' := by
  cases h with
  | empty invalid =>
    intro valid
    rw [isValid, Nat.zero_testBit] at valid
    cases valid
  | @part e k rest valid block =>
    intro _
    obtain ⟨short, al⟩ := ok valid
    have hk : k < 512 := vaPath_lt va k (on.subset (by simp))
    rw [List.length_cons] at short al
    refine ⟨Nat.le_of_succ_le short, ?_⟩
    simp only
    rw [pteAddr_partEntry clean (part_fits al short hk)]
    have smaller : leafSpan rest.length ∣ leafSpan (rest.length + 1) := ⟨512, leafSpan_succ _⟩
    exact dvd_add (smaller.trans al) (Dvd.intro_left k rfl)

/-- The output of a part is that of the block. -/
theorem Finer.leafOutput_eq (clean : CleanMask kept) (h : Finer kept l l') (ok : LeafOk l)
    (on : l.2 <:+ vaPath va) : leafOutput va l' = leafOutput va l := by
  have ok' := h.leafOk clean ok on
  cases h with
  | @empty e k rest invalid => simp [leafOutput, invalid, show isValid 0 = false by decide]
  | @part e k rest valid block =>
    obtain ⟨short, al⟩ := ok valid
    rw [List.length_cons] at short al
    have hk : k < 512 := vaPath_lt va k (on.subset (by simp))
    have index := index_of_suffix on
    rw [leafOutput_of_valid ok valid, leafOutput_of_valid ok' isValid_partEntry]
    simp only
    rw [pteAddr_partEntry clean (part_fits al short hk), index]
    have whole : va % leafSpan (rest.length + 1) =
        va % leafSpan rest.length + leafSpan rest.length * (va / leafSpan rest.length % 512) := by
      rw [← Nat.mod_mul, leafSpan_succ]
    rw [List.length_cons, whole]
    congr 1
    ring

theorem Refined.keeps (clean : CleanMask kept) (h : Refined kept l l') (ok : LeafOk l)
    (on : l.2 <:+ vaPath va) :
    LeafOk l' ∧ l'.2 <:+ vaPath va ∧ leafOutput va l' = leafOutput va l := by
  induction h with
  | refl => exact ⟨ok, on, rfl⟩
  | tail _ step ih =>
    obtain ⟨ok', on', same⟩ := ih
    exact ⟨step.leafOk clean ok' on', step.suffix.trans on', (step.leafOutput_eq clean ok' on').trans same⟩

end Finer

/-! ## Linking a table -/

/-- The two addresses have the indices in common that lead to the leaf of the second one. -/
def SharesLeaf (m : Mem) (root va x : Nat) : Prop :=
  (vaPath x).take (4 - (leaf m root va).2.length) = (vaPath va).take (4 - (leaf m root va).2.length)

/-- One table has been added, on the way of `va`. -/
structure LinkedAt (root va : Nat) (path : List Nat) (idx pa : Nat) (m m' : Mem) : Prop where
  tables : ∀ P p, IsPath P → (tableAt m' root P = some p ↔
    tableAt m root P = some p ∨ (P = path ++ [idx] ∧ p = pa))
  left : (leaf m root va).2.length = (leaf m' root va).2.length + 1

/-- The tree while a mapping of `va` is under way: `m₀` is the memory before it. Only leaves that
begin with the leaf of `va` have changed. -/
structure Growing (kept root va : Nat) (m₀ : Mem) (mm : Mm) : Prop where
  wf : mm.WF
  tree : WellFormed mm.mem root
  held : HeldTables mm root
  finer : ∀ x, Refined kept (leaf m₀ root x) (leaf mm.mem root x)
  near : ∀ x, leaf mm.mem root x = leaf m₀ root x ∨ SharesLeaf m₀ root va x

section Growing

variable {kept root va table idx pa : Nat} {path : List Nat} {m₀ mem : Mem} {mm mm' : Mm}

theorem Growing.start (wf : mm.WF) (tree : WellFormed mm.mem root) (held : HeldTables mm root) :
    Growing kept root va mm.mem mm := ⟨wf, tree, held, fun _ => .refl, fun _ => Or.inl rfl⟩

theorem Growing.still (h : Growing kept root va m₀ mm) (still : mm.Still mm') :
    Growing kept root va m₀ mm' where
  wf := still.wf h.wf
  tree := by rw [still.mem_eq]; exact h.tree
  held P p isPath reach := still.spent.mpr (h.held P p isPath (by rwa [still.mem_eq] at reach))
  finer := by rw [still.mem_eq]; exact h.finer
  near := by rw [still.mem_eq]; exact h.near

theorem Growing.skipped (h : Growing kept root va m₀ mm) (skipped : Walker.Skipped mm mm') :
    Growing kept root va m₀ mm' := by
  obtain ⟨n, ge, grid, rfl⟩ := skipped
  exact ⟨h.wf.skipTo ge grid, h.tree, fun P p isPath reach => (h.held P p isPath reach).skipTo ge,
    h.finer, h.near⟩

/-- A fresh frame, linked into an entry that refers to no table. -/
theorem link_of_claim (wf : mm.WF) (tree : WellFormed mm.mem root) (held : HeldTables mm root)
    (cand : mm.Candidate pa) (here : tableAt mm.mem root path = some table)
    (on : IsPath (path ++ [idx])) (empty : ref (readPte mm.mem table idx) = none)
    (same : ∀ q, pageSize ∣ q → q ≠ pa → (mm.claim .pageTable pa).mem.SameOn mem q pageSize)
    (bare : path.length + 1 < 3 → ∀ j < 512, ref (readPte mem pa j) = none) :
    Radix.Link ref (readPte mm.mem) (readPte (writePte mem table idx (tableEntry pa))) 512 3 root
      path idx table pa := by
  obtain ⟨isPath, _, hidx⟩ := on.init
  have al := tableAt_aligned tree.aligned here
  have spent := held path table isPath here
  have ne := cand.not_spent spent
  have alpa := cand.aligned wf
  refine ⟨here, on, empty, fun P isP reach => cand.not_spent (held P pa isP reach) rfl, ?_, ?_, ?_⟩
  · rw [readPte_writePte_same, ref_mod]
    exact ref_tableEntry alpa cand.lt_addr
  · intro P n isP reach j hj off
    have aln := tableAt_aligned tree.aligned reach
    have spentn := held P n isP reach
    have kept : readPte mem n j = readPte mm.mem n j :=
      readPte_sameOn ((Vmo.claim_sameOn .pageTable wf cand spentn aln).trans
        (same n aln (cand.not_spent spentn))) hj
    rw [← kept]
    by_cases page : n = table
    · subst page
      exact readPte_writePte_of_ne fun eq => off ⟨rfl, eq⟩
    · exact readPte_sameOn (writePte_sameOn al aln page hidx) hj
  · intro below j hj
    rw [readPte_sameOn (writePte_sameOn al alpa ne.symm hidx) hj]
    exact bare below j hj

theorem Refined.suffix {l l' : Nat × List Nat} (h : Refined kept l l') : l'.2 <:+ l.2 := by
  induction h with
  | refl => exact List.suffix_rfl
  | tail _ step ih => exact step.suffix.trans ih

/-- Behind an entry on the way of `va` lie only addresses that share its leaf. -/
theorem Growing.sharesLeaf (h : Growing kept root va m₀ mm)
    (stop : path.length + 1 + (leaf mm.mem root va).2.length = 4) (on : path ++ [idx] <+: vaPath va)
    {x : Nat} (through : path ++ [idx] <+: vaPath x) : SharesLeaf m₀ root va x := by
  have shorter := (h.finer va).suffix.length_le
  have inside : 4 - (leaf m₀ root va).2.length ≤ (path ++ [idx]).length := by
    rw [List.length_append, List.length_singleton]
    omega
  obtain ⟨tail, eq⟩ := on
  obtain ⟨tail', eq'⟩ := through
  rw [SharesLeaf, ← eq, ← eq', List.take_append_of_le_length inside,
    List.take_append_of_le_length inside]

theorem Growing.link (clean : CleanMask kept) (h : Growing kept root va m₀ mm)
    (cand : mm.Candidate pa) (here : tableAt mm.mem root path = some table)
    (on : path ++ [idx] <+: vaPath va) (short : path.length < 3)
    (empty : ref (readPte mm.mem table idx) = none)
    (same : ∀ q, pageSize ∣ q → q ≠ pa → (mm.claim .pageTable pa).mem.SameOn mem q pageSize)
    (bare : path.length + 1 < 3 → ∀ j < 512, ref (readPte mem pa j) = none)
    (parts : ∀ k < 512, ∀ rest, path.length + rest.length = 2 →
      Finer kept (readPte mm.mem table idx, k :: rest) (readPte mem pa k, rest)) :
    Growing kept root va m₀
        ((mm.claim .pageTable pa).setMem (writePte mem table idx (tableEntry pa))) ∧
      LinkedAt root va path idx pa mm.mem (writePte mem table idx (tableEntry pa)) := by
  have onPath : IsPath (path ++ [idx]) := isPath_of_sub on (by simpa using short)
  have l := link_of_claim h.wf h.tree h.held cand here onPath empty same bare
  have once := h.tree.once
  obtain ⟨isPath, _, hidx⟩ := onPath.init
  have al := tableAt_aligned h.tree.aligned here
  have ne := cand.not_spent (h.held path table isPath here)
  -- the walk of an address behind the entry, before and after
  have behind : ∀ x, path ++ [idx] <+: vaPath x → ∃ k rest, k < 512 ∧ path.length + rest.length = 2 ∧
      leaf mm.mem root x = (readPte mm.mem table idx, k :: rest) ∧
      leaf (writePte mem table idx (tableEntry pa)) root x = (readPte mem pa k, rest) := by
    rintro x ⟨tail, split⟩
    have len := congrArg List.length split
    simp only [vaPath, List.length_append, List.length_cons, List.length_nil] at len
    cases tail with
    | nil => simp only [List.length_nil] at len; omega
    | cons k rest =>
      rw [List.length_cons] at len
      have hk : k < 512 := vaPath_lt x k (by rw [← split]; simp)
      have whole : vaPath x = path ++ idx :: k :: rest := by simpa using split.symm
      obtain ⟨before, after⟩ := l.walk_on once rfl (vaPath_lt x) whole
      refine ⟨k, rest, hk, by omega, before, ?_⟩
      rw [leaf, after, readPte_sameOn (writePte_sameOn al (cand.aligned h.wf) ne.symm hidx) hk]
  have off : ∀ x, ¬ path ++ [idx] <+: vaPath x →
      leaf (writePte mem table idx (tableEntry pa)) root x = leaf mm.mem root x :=
    fun x away => l.walk_off once le_rfl (vaPath_lt x) away
  obtain ⟨_, restVa, _, lenVa, leafVa, leafVa'⟩ := behind va on
  have stop : path.length + 1 + (leaf mm.mem root va).2.length = 4 := by
    rw [leafVa, List.length_cons]
    omega
  refine ⟨⟨(h.wf.claim cand).setMem _, ⟨h.tree.aligned, l.once once, fun x => ?_⟩, ?_, fun x => ?_,
    fun x => ?_⟩, fun P p isP => l.follow_iff once isP p, by rw [leafVa, leafVa', List.length_cons]⟩
  · rw [Mm.setMem_mem]
    by_cases through : path ++ [idx] <+: vaPath x
    · obtain ⟨k, rest, hk, len, before, after⟩ := behind x through
      have ok := h.tree.leaves x
      have suffix := leaf_rest_suffix mm.mem root x
      rw [before] at ok suffix
      rw [after]
      exact (parts k hk rest len).leafOk clean ok suffix
    · rw [off x through]
      exact h.tree.leaves x
  · intro P p isP reach
    rcases (l.follow_iff once isP p).mp reach with old | ⟨_, rfl⟩
    · exact (h.held P p isP old).claim .pageTable cand
    · exact mm.spent_claim_self .pageTable p
  · rw [Mm.setMem_mem]
    by_cases through : path ++ [idx] <+: vaPath x
    · obtain ⟨k, rest, hk, len, before, after⟩ := behind x through
      have finer := h.finer x
      rw [before] at finer
      rw [after]
      exact finer.tail (parts k hk rest len)
    · rw [off x through]
      exact h.finer x
  · rw [Mm.setMem_mem]
    by_cases through : path ++ [idx] <+: vaPath x
    · exact Or.inr (h.sharesLeaf stop on through)
    · rw [off x through]
      exact h.near x

theorem LinkedAt.here {m m' : Mem} (l : LinkedAt root va path idx pa m m')
    (on : path ++ [idx] <+: vaPath va) (short : path.length < 3) :
    tableAt m' root (path ++ [idx]) = some pa :=
  (l.tables _ pa (isPath_of_sub on (by simpa using short))).mpr (Or.inr ⟨rfl, rfl⟩)

end Growing

/-! ## The walk to the last table -/

namespace Walker

variable {S : Type} (w : Walker S)

/-- The walk down to the table of the page, without the last write. -/
def leafTable (root va : Nat) : Prog S Status Nat := do
  let l1 ← w.enterTable (fun _ _ _ => Prog.throw .notAllowed) root (vaL0Index va)
  let l2 ← w.enterTable w.shatterL1Block l1 (vaL1Index va)
  w.enterTable w.shatterL2Block l2 (vaL2Index va)

theorem mapPage_eq_leafTable (standard : w.Standard) (root va pa : Nat) (flags : MapFlags) :
    w.mapPage root va pa flags = (do
      let l3 ← w.leafTable root va
      w.write l3 (vaL3Index va) (pageEntry pa flags)) := by
  rw [standard.mapPage_eq, leafTable]
  rw [← Prog.bind_assoc]
  congr 1
  funext l1
  exact Prog.bind_assoc _ _ _

/-- An invariant of the walk: an empty table may be linked below it, and a block be split. -/
structure WalkSteps (root va : Nat) (I : S → Prop) : Prop where
  new : ∀ s path idx table, I s → path ++ [idx] <+: vaPath va → path.length < 3 →
    tableAt (w.view s).mem root path = some table →
    isValid (readPte (w.view s).mem table idx) = false →
    Prog.Post (w.newTable table idx) s
      (fun pa s' => I s' ∧ tableAt (w.view s').mem root (path ++ [idx]) = some pa) I
  split : ∀ s path idx table, I s → path ++ [idx] <+: vaPath va → path ≠ [] → path.length < 3 →
    tableAt (w.view s).mem root path = some table →
    isValid (readPte (w.view s).mem table idx) = true →
    isTable (readPte (w.view s).mem table idx) = false →
    Prog.Post (w.split (leafSpan (2 - path.length)) (partType (2 - path.length)) table idx
        (readPte (w.view s).mem table idx)) s
      (fun pa s' => I s' ∧ tableAt (w.view s').mem root (path ++ [idx]) = some pa) I

variable {w} {I : S → Prop} {root va : Nat}

/-- One level, given what happens to a block. -/
theorem WalkSteps.enterTable (steps : w.WalkSteps root va I) {s : S} (start : I s) {path : List Nat}
    {idx table : Nat} (on : path ++ [idx] <+: vaPath va) (short : path.length < 3)
    (here : tableAt (w.view s).mem root path = some table)
    {onBlock : Nat → Nat → Nat → Prog S Status Nat}
    (block : isValid (readPte (w.view s).mem table idx) = true →
      isTable (readPte (w.view s).mem table idx) = false →
      Prog.Post (onBlock table idx (readPte (w.view s).mem table idx)) s
        (fun pa s' => I s' ∧ tableAt (w.view s').mem root (path ++ [idx]) = some pa) I) :
    Prog.Post (w.enterTable onBlock table idx) s
      (fun pa s' => I s' ∧ tableAt (w.view s').mem root (path ++ [idx]) = some pa) I := by
  refine Prog.Post.get_bind ?_
  simp only
  split_ifs with follow valid
  · refine .pure ⟨start, ?_⟩
    rw [tableAt, Radix.follow_snoc, ← tableAt, here, Option.bind_some, ref, if_pos follow]
  · exact block valid (by simpa [valid] using follow)
  · exact steps.new s path idx table start on short here (by simpa using valid)

theorem WalkSteps.leafTable (steps : w.WalkSteps root va I) {s : S} (start : I s) :
    Prog.Post (w.leafTable root va) s
      (fun l3 s' => I s' ∧
        tableAt (w.view s').mem root [vaL0Index va, vaL1Index va, vaL2Index va] = some l3) I := by
  have on0 : [] ++ [vaL0Index va] <+: vaPath va := ⟨[vaL1Index va, vaL2Index va, vaL3Index va], rfl⟩
  have on1 : [vaL0Index va] ++ [vaL1Index va] <+: vaPath va := ⟨[vaL2Index va, vaL3Index va], rfl⟩
  have on2 : [vaL0Index va, vaL1Index va] ++ [vaL2Index va] <+: vaPath va := ⟨[vaL3Index va], rfl⟩
  unfold Walker.leafTable
  refine Prog.Post.bind (steps.enterTable start on0 (by decide) rfl fun _ _ => .throw start) ?_
  rintro l1 s₁ ⟨start₁, here₁⟩
  refine Prog.Post.bind (steps.enterTable start₁ on1 (by simp) here₁ fun valid block => ?_) ?_
  · have split := steps.split s₁ _ _ l1 start₁ on1 (by simp) (by simp) here₁ valid block
    have size : leafSpan (2 - [vaL0Index va].length) = 0x200000 := by norm_num [leafSpan]
    have type : partType (2 - [vaL0Index va].length) = pteTypeBlock := by simp [partType]
    rw [size, type] at split
    exact split
  rintro l2 s₂ ⟨start₂, here₂⟩
  refine steps.enterTable start₂ on2 (by simp) here₂ fun valid block => ?_
  have split := steps.split s₂ _ _ l2 start₂ on2 (by simp) (by simp) here₂ valid block
  have size : leafSpan (2 - [vaL0Index va, vaL1Index va].length) = 0x1000 := by norm_num [leafSpan]
  have type : partType (2 - [vaL0Index va, vaL1Index va].length) = pteTypePage := by simp [partType]
  rw [size, type] at split
  exact split

section Made

variable (lawful : w.Lawful) (clean : CleanMask w.keptBits) {m₀ : Mem} {s : S} {path : List Nat}
  {idx table : Nat} (h : Growing w.keptBits root va m₀ (w.view s))
  (on : path ++ [idx] <+: vaPath va) (short : path.length < 3)
  (here : tableAt (w.view s).mem root path = some table)

include lawful clean h on short here in
theorem newTable_grown (invalid : isValid (readPte (w.view s).mem table idx) = false) :
    Prog.Post (w.newTable table idx) s
      (fun pa s' => (w.view s).Candidate pa ∧ Growing w.keptBits root va m₀ (w.view s') ∧
        LinkedAt root va path idx pa (w.view s).mem (w.view s').mem)
      (fun s' => Skipped (w.view s) (w.view s')) := by
  refine (newTable_made lawful h.wf table idx).mono ?_ fun _ stop => stop
  rintro pa s' ⟨cand, still⟩
  obtain ⟨grown, linked⟩ := h.link clean cand here on short
    (ref_eq_none.mpr fun valid => by rw [invalid] at valid; cases valid)
    (fun _ _ _ => Mem.SameOn.refl _ _ _) (fun _ j hj => by rw [readPte_claim hj, ref_zero])
    fun k hk rest _ => by rw [readPte_claim hk]; exact .empty invalid
  refine ⟨cand, grown.still still, ?_⟩
  rw [still.mem_eq]
  exact linked

include lawful clean h on short here in
theorem split_grown (valid : isValid (readPte (w.view s).mem table idx) = true)
    (block : isTable (readPte (w.view s).mem table idx) = false) :
    Prog.Post (w.split (leafSpan (2 - path.length)) (partType (2 - path.length)) table idx
        (readPte (w.view s).mem table idx)) s
      (fun pa s' => (w.view s).Candidate pa ∧ Growing w.keptBits root va m₀ (w.view s') ∧
        LinkedAt root va path idx pa (w.view s).mem (w.view s').mem)
      (fun s' => Skipped (w.view s) (w.view s')) := by
  refine (split_made lawful h.wf _ _ table idx _).mono ?_ fun _ stop => stop
  rintro pa s' ⟨cand, still⟩
  have part : ∀ k < 512, readPte (fill (blockPart w.keptBits (leafSpan (2 - path.length))
      (partType (2 - path.length)) (readPte (w.view s).mem table idx)) pa (List.range 512)
      ((w.view s).claim .pageTable pa).mem) pa k =
      partEntry w.keptBits (2 - path.length) (readPte (w.view s).mem table idx) k := fun k hk => by
    rw [readPte_fill_mem _ _ _ (List.mem_range.mpr hk)]
    exact Nat.mod_eq_of_lt partEntry_lt
  obtain ⟨grown, linked⟩ := h.link clean cand here on short (ref_eq_none.mpr fun _ => block)
    (fun q al ne => fill_sameOn (cand.aligned h.wf) al ne (fun i hi => List.mem_range.mp hi) _)
    (fun below j hj => by
      rw [part j hj]
      refine ref_eq_none.mpr fun _ => ?_
      rw [isTable_partEntry block]
      exact decide_eq_false (by omega))
    (fun k hk rest len => by
      rw [part k hk, show 2 - path.length = rest.length by omega]
      exact .part valid block)
  refine ⟨cand, grown.still still, ?_⟩
  rw [still.mem_eq]
  exact linked

end Made

/-- The walk makes leaves of the tree finer and does nothing else. -/
theorem growing_steps (lawful : w.Lawful) (clean : CleanMask w.keptBits) (m₀ : Mem) :
    w.WalkSteps root va fun s => Growing w.keptBits root va m₀ (w.view s) where
  new _ _ _ _ h on short here invalid :=
    (newTable_grown lawful clean h on short here invalid).mono
      (fun _ _ made => ⟨made.2.1, made.2.2.here on short⟩) fun _ => h.skipped
  split _ _ _ _ h on _ short here valid block :=
    (split_grown lawful clean h on short here valid block).mono
      (fun _ _ made => ⟨made.2.1, made.2.2.here on short⟩) fun _ => h.skipped

end Walker

/-! ## The last write -/

section Page

variable {kept root l3 va e : Nat} {m₀ : Mem} {mm : Mm}

/-- The tree after a descriptor has been written at the last level: only the page is seen anew. -/
structure Paged (root va e : Nat) (m m' : Mem) : Prop where
  tree : WellFormed m' root
  tables : ∀ P, IsPath P → tableAt m' root P = tableAt m root P
  here : ∀ x, vaPath x = vaPath va → leaf m' root x = (e % 2 ^ 64, [])
  others : ∀ x, vaPath x ≠ vaPath va → leaf m' root x = leaf m root x

theorem WellFormed.page (tree : WellFormed mm.mem root)
    (at_l3 : tableAt mm.mem root [vaL0Index va, vaL1Index va, vaL2Index va] = some l3) :
    Paged root va e mm.mem (writePte mm.mem l3 (vaL3Index va) e) := by
  have isPath : IsPath [vaL0Index va, vaL1Index va, vaL2Index va] :=
    isPath_of_sub (show _ <+: vaPath va from ⟨[vaL3Index va], rfl⟩) (by simp)
  have al := tableAt_aligned tree.aligned at_l3
  have h3 := vaL3Index_lt va
  have put : Radix.Put ref (readPte mm.mem) (readPte (writePte mm.mem l3 (vaL3Index va) e)) 512 3
      root [vaL0Index va, vaL1Index va, vaL2Index va] (vaL3Index va) l3 := by
    refine ⟨at_l3, isPath, rfl, fun P n isP reach j hj off => ?_⟩
    by_cases page : n = l3
    · subst page
      exact readPte_writePte_of_ne fun eq => off ⟨rfl, eq⟩
    · exact readPte_sameOn (writePte_sameOn al (tableAt_aligned tree.aligned reach) page h3) hj
  have here : ∀ x, vaPath x = vaPath va →
      leaf (writePte mm.mem l3 (vaL3Index va) e) root x = (e % 2 ^ 64, []) := fun x eq => by
    rw [leaf, put.walk_on tree.once (show vaPath x = _ from eq), readPte_writePte_same]
  have others : ∀ x, vaPath x ≠ vaPath va →
      leaf (writePte mm.mem l3 (vaL3Index va) e) root x = leaf mm.mem root x := fun x ne =>
    put.walk_off tree.once rfl (vaPath_lt x) ne
  refine ⟨⟨tree.aligned, put.once tree.once, fun x => ?_⟩, fun P isP => put.follow_eq tree.once isP,
    here, others⟩
  by_cases page : vaPath x = vaPath va
  · rw [here x page]
    refine fun _ => ⟨by simp, ?_⟩
    have al := pteAddr_aligned (e % 2 ^ 64)
    rw [show pageSize = leafSpan 0 by norm_num [leafSpan, pageSize]] at al
    exact al
  · rw [others x page]
    exact tree.leaves x

end Page

/-- A mapping makes leaves finer and then writes the descriptor of the page, or it stops before that. -/
theorem Walker.mapPage_growing {S : Type} {w : Walker S} (lawful : w.Lawful)
    (clean : CleanMask w.keptBits) {root va pa : Nat} {flags : MapFlags} {s : S}
    (h : Growing w.keptBits root va (w.view s).mem (w.view s)) :
    Prog.Post (w.mapPage root va pa flags) s
      (fun _ s' => ∃ mm l3, Growing w.keptBits root va (w.view s).mem mm ∧
        tableAt mm.mem root [vaL0Index va, vaL1Index va, vaL2Index va] = some l3 ∧
        w.view s' = mm.setMem (writePte mm.mem l3 (vaL3Index va) (pageEntry pa flags)) ∧
        Paged root va (pageEntry pa flags) mm.mem (w.view s').mem)
      (fun s' => Growing w.keptBits root va (w.view s).mem (w.view s')) := by
  rw [mapPage_eq_leafTable w lawful.toStandard]
  refine ((growing_steps lawful clean _).leafTable h).bind ?_
  rintro l3 s₁ ⟨grown, at_l3⟩
  obtain ⟨s₂, run, view⟩ := write_ok lawful s₁ l3 (vaL3Index va) (pageEntry pa flags)
  refine .of_ok ⟨(), s₂, run, w.view s₁, l3, grown, at_l3, view, ?_⟩
  rw [view]
  exact grown.tree.page at_l3

end CapsuleOS
