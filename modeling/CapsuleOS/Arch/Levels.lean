import CapsuleOS.Arch.Mapping
import CapsuleOS.Lib.Lockstep

/-!
# Two walks side by side

`Leveled` gives every table page its level and says of every entry what it may be: a reference leads to
a table of the next level, and a block has only bits that both masks for the parts of a block treat
alike. Unlike `Shaped` it lets trees share tables.

Two implementations of the walk that start on the same memory, with allocators that will hand out the
same frames, then take the same steps (`mapPage_lockstep`).
-/
namespace CapsuleOS

open Lib

/-! ## Blocks -/

/-- Bits that only one of the two masks for the parts of a block keeps. Those that forbid execution are
not among them, as no part has them. -/
def uncommonBits : Nat := 0xFF9F000000000000

/-- A block as `write_l1_block` writes it, or a part of one. -/
def KernelBlock (e : Nat) : Prop := e &&& uncommonBits = 0

/-- The mask keeps the lower twelve attribute bits, and others only among the uncommon ones. -/
def PartMask (kept : Nat) : Prop :=
  kept &&& (2 ^ 64 - 1 - pteXn - pteUxn) = 0xFFF ||| (kept &&& uncommonBits)

section Blocks

variable {kept kept' size type e : Nat}

theorem kernelBlock_mod : KernelBlock (e % 2 ^ 64) ↔ KernelBlock e := by
  have word : (2 ^ 64 - 1) &&& uncommonBits = uncommonBits := by decide
  rw [KernelBlock, KernelBlock, ← Nat.and_two_pow_sub_one_eq_mod, Nat.and_assoc, word]

theorem kernelBlock_or {e' : Nat} (h : KernelBlock e) (h' : KernelBlock e') : KernelBlock (e ||| e') := by
  unfold KernelBlock at *
  rw [Nat.and_or_distrib_right, h, h', Nat.or_zero]

theorem kernelBlock_pteAddr (pa : Nat) : KernelBlock (pteAddr pa) := by
  have apart : pteAddrMask &&& uncommonBits = 0 := by decide
  rw [KernelBlock, pteAddr, Nat.and_assoc, apart, Nat.and_zero]

theorem kernelBlock_l1Block (pa : Nat) (attr : MemAttr) : KernelBlock (l1Block pa attr) := by
  have attrs : KernelBlock (memAttrBits attr) := by
    unfold KernelBlock
    cases attr <;> decide
  exact kernelBlock_or (kernelBlock_or (kernelBlock_or (kernelBlock_or (kernelBlock_pteAddr pa)
    (by decide : pteValid &&& uncommonBits = 0)) (by decide : pteTypeBlock &&& uncommonBits = 0)) attrs)
    (by decide : pteXn &&& uncommonBits = 0)

/-- Of the attributes of a block its parts have those of the lower twelve bits. -/
theorem KernelBlock.attributes (h : KernelBlock e) (mask : PartMask kept) :
    ((e &&& kept) ||| pteApUser) &&& (2 ^ 64 - 1 - pteXn - pteUxn) = (e &&& 0xFFF) ||| pteApUser := by
  have user : pteApUser &&& (2 ^ 64 - 1 - pteXn - pteUxn) = pteApUser := by decide
  have gone : e &&& (kept &&& uncommonBits) = 0 := by
    rw [Nat.and_comm kept, ← Nat.and_assoc, h, Nat.zero_and]
  rw [Nat.and_or_distrib_right, user, Nat.and_assoc, mask, Nat.and_or_distrib_left, gone, Nat.or_zero]

theorem KernelBlock.blockPart_eq (h : KernelBlock e) (mask : PartMask kept) (mask' : PartMask kept')
    (i : Nat) : blockPart kept size type e i = blockPart kept' size type e i := by
  rw [blockPart, blockPart, h.attributes mask, h.attributes mask']

theorem KernelBlock.blockPart (h : KernelBlock e) (mask : PartMask kept) (i : Nat) :
    KernelBlock (blockPart kept size pteTypeBlock e i) := by
  have low : KernelBlock (e &&& 0xFFF) := by
    have apart : 0xFFF &&& uncommonBits = 0 := by decide
    rw [KernelBlock, Nat.and_assoc, apart, Nat.and_zero]
  rw [CapsuleOS.blockPart, h.attributes mask]
  exact kernelBlock_or (kernelBlock_or (kernelBlock_or (kernelBlock_pteAddr _)
    (by decide : pteValid &&& uncommonBits = 0)) (by decide : pteTypeBlock &&& uncommonBits = 0))
    (kernelBlock_or low (by decide : pteApUser &&& uncommonBits = 0))

end Blocks

/-! ## Levels -/

/-- The level of every table page, from the root at 0 to the last level at 3. -/
abbrev Levels := Nat → Option Nat

def Levels.Extends (lvl lvl' : Levels) : Prop := ∀ p ℓ, lvl p = some ℓ → lvl' p = some ℓ

/-- What an entry of a table of level `ℓ` may be. -/
structure EntryOk (lvl : Levels) (ℓ e : Nat) : Prop where
  table : ℓ < 3 → ∀ q, ref e = some q → lvl q = some (ℓ + 1)
  block : ℓ < 3 → isValid e = true → isTable e = false → KernelBlock e
  root : ℓ = 0 → e = 0 ∨ (isValid e = true ∧ isTable e = true)

structure Leveled (lvl : Levels) (mm : Mm) : Prop where
  wf : mm.WF
  aligned : ∀ p ℓ, lvl p = some ℓ → pageSize ∣ p
  spent : ∀ p ℓ, lvl p = some ℓ → mm.Spent p
  entries : ∀ p ℓ, lvl p = some ℓ → ∀ i < 512, EntryOk lvl ℓ (readPte mm.mem p i)

section Leveled

variable {lvl lvl' lvl'' : Levels} {mm mm' : Mm} {p pa n ℓ i e : Nat} {tag : PageTag}

theorem Levels.Extends.refl : lvl.Extends lvl := fun _ _ h => h

theorem Levels.Extends.trans (h : lvl.Extends lvl') (h' : lvl'.Extends lvl'') : lvl.Extends lvl'' :=
  fun p ℓ hp => h' p ℓ (h p ℓ hp)

theorem EntryOk.extend (h : EntryOk lvl ℓ e) (more : lvl.Extends lvl') : EntryOk lvl' ℓ e :=
  ⟨fun lt q hq => more _ _ (h.table lt q hq), h.block, h.root⟩

theorem EntryOk.zero : EntryOk lvl ℓ 0 := by
  refine ⟨fun _ q hq => ?_, fun _ valid => ?_, fun _ => Or.inl rfl⟩
  · rw [ref_zero] at hq
    cases hq
  · rw [isValid, Nat.zero_testBit] at valid
    cases valid

theorem EntryOk.tableEntry (next : lvl n = some (ℓ + 1)) (al : pageSize ∣ n) (lt : n < 2 ^ 48) :
    EntryOk lvl ℓ (tableEntry n % 2 ^ 64) := by
  refine ⟨fun _ q hq => ?_, fun _ _ block => ?_, fun _ => Or.inr ?_⟩
  · rw [ref_mod, ref_tableEntry al lt] at hq
    cases hq
    exact next
  · rw [isTable_mod, isTable_tableEntry] at block
    cases block
  · rw [isValid_mod, isTable_mod]
    exact ⟨isValid_tableEntry n, isTable_tableEntry n⟩

/-- A block below the root. -/
theorem EntryOk.of_block (below : ℓ ≠ 0) (block : isTable e = false) (clean : KernelBlock e) :
    EntryOk lvl ℓ (e % 2 ^ 64) := by
  refine ⟨fun _ q hq => ?_, fun _ _ _ => kernelBlock_mod.mpr clean, fun zero => absurd zero below⟩
  rw [ref_mod, ref_eq_none.mpr fun _ => block] at hq
  cases hq

/-- At the last level anything goes. -/
theorem EntryOk.last : EntryOk lvl 3 e :=
  ⟨fun lt => absurd lt (lt_irrefl 3), fun lt => absurd lt (lt_irrefl 3), fun eq => by cases eq⟩

/-- Steps that leave the tables alone. -/
theorem Leveled.of_sameOn (h : Leveled lvl mm) (wf : mm'.WF) (spent : ∀ q, mm.Spent q → mm'.Spent q)
    (same : ∀ p ℓ, lvl p = some ℓ → mm.mem.SameOn mm'.mem p pageSize) : Leveled lvl mm' where
  wf := wf
  aligned := h.aligned
  spent p ℓ hp := spent p (h.spent p ℓ hp)
  entries p ℓ hp i hi := by
    rw [readPte_sameOn (same p ℓ hp) hi]
    exact h.entries p ℓ hp i hi

theorem Leveled.still (h : Leveled lvl mm) (still : mm.Still mm') : Leveled lvl mm' :=
  h.of_sameOn (still.wf h.wf) (fun _ hq => still.spent.mpr hq) fun _ _ _ => by
    rw [still.mem_eq]
    exact Mem.SameOn.refl _ _ _

theorem Leveled.skipped (h : Leveled lvl mm) (skipped : Walker.Skipped mm mm') : Leveled lvl mm' := by
  obtain ⟨n, ge, grid, rfl⟩ := skipped
  exact h.of_sameOn (h.wf.skipTo ge grid) (fun _ hq => hq.skipTo ge) fun _ _ _ => Mem.SameOn.refl _ _ _

variable (tag) in
/-- A fresh frame becomes a table. -/
theorem Leveled.fresh (h : Leveled lvl mm) (cand : mm.Candidate pa) {mem : Mem}
    (same : ∀ q, pageSize ∣ q → q ≠ pa → (mm.claim tag pa).mem.SameOn mem q pageSize)
    (entries : ∀ i < 512, ∀ lvl', lvl.Extends lvl' → EntryOk lvl' ℓ (readPte mem pa i)) :
    lvl.Extends (Function.update lvl pa (some ℓ)) ∧
      Leveled (Function.update lvl pa (some ℓ)) ((mm.claim tag pa).setMem mem) := by
  have old : ∀ p ℓ, lvl p = some ℓ → p ≠ pa := fun p ℓ hp => cand.not_spent (h.spent p ℓ hp)
  have more : lvl.Extends (Function.update lvl pa (some ℓ)) := fun p ℓ' hp => by
    rw [Function.update_of_ne (old p ℓ' hp), hp]
  have split : ∀ p ℓ', Function.update lvl pa (some ℓ) p = some ℓ' →
      (p = pa ∧ ℓ' = ℓ) ∨ (p ≠ pa ∧ lvl p = some ℓ') := by
    intro p ℓ' hp
    by_cases eq : p = pa
    · subst eq
      rw [Function.update_self] at hp
      cases hp
      exact Or.inl ⟨rfl, rfl⟩
    · rw [Function.update_of_ne eq] at hp
      exact Or.inr ⟨eq, hp⟩
  refine ⟨more, (h.wf.claim cand).setMem _, fun p ℓ' hp => ?_, fun p ℓ' hp => ?_, fun p ℓ' hp i hi => ?_⟩
  · rcases split p ℓ' hp with ⟨rfl, _⟩ | ⟨_, hp⟩
    · exact cand.aligned h.wf
    · exact h.aligned p ℓ' hp
  · rcases split p ℓ' hp with ⟨rfl, _⟩ | ⟨_, hp⟩
    · exact mm.spent_claim_self tag p
    · exact (h.spent p ℓ' hp).claim tag cand
  · rcases split p ℓ' hp with ⟨rfl, rfl⟩ | ⟨ne, hp⟩
    · exact entries i hi _ more
    · have al := h.aligned p ℓ' hp
      rw [Mm.setMem_mem, readPte_sameOn ((Vmo.claim_sameOn tag h.wf cand (h.spent p ℓ' hp) al).trans
        (same p al ne)) hi]
      exact (h.entries p ℓ' hp i hi).extend more

/-- An entry is written. -/
theorem Leveled.write (h : Leveled lvl mm) (here : lvl p = some ℓ) (hi : i < 512)
    (ok : EntryOk lvl ℓ (e % 2 ^ 64)) : Leveled lvl (mm.setMem (writePte mm.mem p i e)) := by
  refine ⟨h.wf.setMem _, h.aligned, h.spent, fun q ℓ' hq j hj => ?_⟩
  rw [Mm.setMem_mem]
  by_cases page : q = p
  · subst page
    rw [here] at hq
    cases hq
    by_cases entry : j = i
    · subst entry
      rw [readPte_writePte_same]
      exact ok
    · rw [readPte_writePte_of_ne entry]
      exact h.entries q ℓ here j hj
  · rw [readPte_sameOn (writePte_sameOn (h.aligned p ℓ here) (h.aligned q ℓ' hq) page hi) hj]
    exact h.entries q ℓ' hq j hj

variable (tag) in
/-- A fresh frame becomes the table behind an entry. -/
theorem Leveled.link (h : Leveled lvl mm) (cand : mm.Candidate pa) (here : lvl p = some ℓ) (hi : i < 512)
    {mem : Mem} (same : ∀ q, pageSize ∣ q → q ≠ pa → (mm.claim tag pa).mem.SameOn mem q pageSize)
    (entries : ∀ j < 512, ∀ lvl', EntryOk lvl' (ℓ + 1) (readPte mem pa j)) :
    ∃ lvl', lvl.Extends lvl' ∧ lvl' pa = some (ℓ + 1) ∧
      Leveled lvl' ((mm.claim tag pa).setMem (writePte mem p i (tableEntry pa))) := by
  obtain ⟨more, fresh⟩ := h.fresh tag cand same fun j hj lvl' _ => entries j hj lvl'
  have next : Function.update lvl pa (some (ℓ + 1)) pa = some (ℓ + 1) := Function.update_self _ _ _
  exact ⟨_, more, next, fresh.write (more _ _ here) hi
    (.tableEntry next (cand.aligned h.wf) cand.lt_addr)⟩

end Leveled

/-! ## Two memory managers -/

/-- The same memory, and allocators that hand out the same frames. -/
structure Mm.Twin (m m' : Mm) : Prop where
  mem_eq : m'.mem = m.mem
  next_eq : m'.nextFreePage = m.nextFreePage
  end_eq : m'.endFreePage = m.endFreePage
  tags_eq : m'.pageTags = m.pageTags
  live_eq : ∀ q, ¬ m.Spent q → isLivePtPage m' q = isLivePtPage m q

/-- At most the page has been registered as a table page. -/
structure Mm.Registered (pa : Nat) (m m' : Mm) : Prop extends m.Still m' where
  tags_eq : m'.pageTags = m.pageTags
  live_eq : ∀ q, q ≠ pa → isLivePtPage m' q = isLivePtPage m q

section Twin

variable {m m' u u' : Mm} {pa : Nat} {tag : PageTag}

theorem Mm.Twin.refl (m : Mm) : m.Twin m := ⟨rfl, rfl, rfl, rfl, fun _ _ => rfl⟩

theorem Mm.Twin.setMem (h : m.Twin m') (mem : Mem) : (m.setMem mem).Twin (m'.setMem mem) :=
  ⟨rfl, h.next_eq, h.end_eq, h.tags_eq, h.live_eq⟩

theorem Mm.Twin.claim (h : m.Twin m') (ge : m.nextFreePage ≤ pa) :
    (m.claim tag pa).Twin (m'.claim tag pa) := by
  refine ⟨?_, rfl, h.end_eq, ?_, fun q free => h.live_eq q fun spent => free ?_⟩
  · simp only [Mm.claim, Mm.setTag, h.mem_eq]
  · simp only [Mm.claim, Mm.setTag, h.tags_eq]
  · simp only [Mm.Spent, Mm.claim, Mm.setTag] at spent ⊢
    omega

theorem Mm.Registered.refl (pa : Nat) (m : Mm) : m.Registered pa m := ⟨.refl m, rfl, fun _ _ => rfl⟩

theorem Mm.Twin.registered (h : m.Twin m') (spent : m.Spent pa) (left : m.Registered pa u)
    (right : m'.Registered pa u') : u.Twin u' := by
  refine ⟨?_, ?_, ?_, ?_, fun q free => ?_⟩
  · rw [right.mem_eq, left.mem_eq, h.mem_eq]
  · rw [right.next_eq, left.next_eq, h.next_eq]
  · rw [right.end_eq, left.end_eq, h.end_eq]
  · rw [right.tags_eq, left.tags_eq, h.tags_eq]
  · have unspent : ¬ m.Spent q := fun spent => free (left.spent.mpr spent)
    have ne : q ≠ pa := fun eq => unspent (eq ▸ spent)
    rw [right.live_eq q ne, left.live_eq q ne, h.live_eq q unspent]

/-- Registering a page makes only that page live. -/
theorem isLivePtPage_register {q : Nat} (ne : q ≠ pa) :
    isLivePtPage { m with livePtPages := registerPtPage pa m.livePtPages } q = isLivePtPage m q := by
  by_cases zero : q = 0
  · simp [isLivePtPage, zero]
  · have same : ∀ l : List Nat, q ∈ registerPtPage pa l ↔ q ∈ l := by
      intro l
      induction l with
      | nil => rfl
      | cons prev rest ih =>
        unfold registerPtPage
        split_ifs with known empty
        · rfl
        · subst empty
          simp [ne, zero]
        · simp [ih]
    simp [isLivePtPage, same]

/-- The allocators find the same frame, or fail in the same way. -/
theorem allocLoop_lockstep (fuel : Nat) (h : m.Twin m') :
    Prog.Lockstep (allocLoop tag fuel) (allocLoop tag fuel) m m' (fun _ => Mm.Twin) Mm.Twin := by
  induction fuel generalizing m m' with
  | zero => exact .fault m m' h
  | succ fuel ih =>
    have tag_eq : m'.tag m.nextFreePage = m.tag m.nextFreePage := by rw [Mm.tag, Mm.tag, h.tags_eq]
    simp only [Prog.Lockstep, allocLoop, h.next_eq, h.end_eq, tag_eq]
    split_ifs with range pfn skip live live' live'
    · exact .err _ m m' h
    · exact .fault m m' h
    · refine ih ⟨h.mem_eq, rfl, rfl, h.tags_eq, fun q free => h.live_eq q fun spent => free ?_⟩
      simp only [Mm.Spent] at spent ⊢
      omega
    all_goals
      -- the frame under the cursor is not spent
      have same := h.live_eq m.nextFreePage (by unfold Mm.Spent pageSize; omega)
    · exact .fault m m' h
    · rw [same] at live'
      exact absurd live live'
    · rw [same] at live'
      exact absurd live' live
    · exact .ok _ _ _ (h.claim le_rfl)

theorem allocPage_lockstep (h : m.Twin m') (tag : PageTag) :
    Prog.Lockstep (allocPage tag) (allocPage tag) m m' (fun _ => Mm.Twin) Mm.Twin := by
  unfold Prog.Lockstep allocPage
  rw [h.next_eq, h.end_eq]
  exact allocLoop_lockstep _ h

end Twin

/-! ## The walks -/

namespace Walker

variable {S T : Type}

/-- Entering a page in a list registers that page at most, and the parts of a block have the attributes
that they get from both masks. -/
structure Regular (w : Walker S) : Prop extends w.Standard where
  view_put : ∀ m s, w.view (w.put m s) = m
  track : ∀ pa s, (w.view s).Registered pa (w.view (w.track pa s))
  trackSplit : ∀ pa s, (w.view s).Registered pa (w.view (w.trackSplit pa s))
  mask : PartMask w.keptBits

theorem Regular.lawful {w : Walker S} (h : w.Regular) : w.Lawful where
  toStandard := h.toStandard
  view_put := h.view_put
  track_still pa s := (h.track pa s).toStill
  trackSplit_still pa s := (h.trackSplit pa s).toStill

/-- The states of two walks between two steps. -/
structure Beside (w : Walker S) (w' : Walker T) (lvl : Levels) (s : S) (t : T) : Prop where
  leveled : Leveled lvl (w.view s)
  twin : (w.view s).Twin (w'.view t)

/-- The same at some levels that extend the given ones. -/
def Onward (w : Walker S) (w' : Walker T) (lvl : Levels) (s : S) (t : T) : Prop :=
  ∃ lvl', lvl.Extends lvl' ∧ w.Beside w' lvl' s t

/-- Both have come to the table `n` of level `ℓ`. -/
def Entering (w : Walker S) (w' : Walker T) (lvl : Levels) (ℓ n : Nat) (s : S) (t : T) : Prop :=
  ∃ lvl', lvl.Extends lvl' ∧ lvl' n = some ℓ ∧ w.Beside w' lvl' s t

section Steps

variable {w : Walker S} {w' : Walker T} {s : S} {t : T} {lvl : Levels} {table idx ℓ : Nat}
  (regular : w.Regular) (regular' : w'.Regular) (h : w.Beside w' lvl s t)

include regular regular' h in
theorem allocPtPage_lockstep :
    Prog.Lockstep (w.onMm allocPtPage) (w'.onMm allocPtPage) s t
      (fun pa s' t' => (w.view s).Candidate pa ∧ w.view s' = (w.view s).claim .pageTable pa ∧
        (w.view s').Twin (w'.view t'))
      (w.Onward w' lvl) := by
  have both : Prog.Lockstep (w.onMm allocPtPage) (w'.onMm allocPtPage) s t
      (fun _ s' t' => (w.view s').Twin (w'.view t')) (fun s' t' => (w.view s').Twin (w'.view t')) :=
    (allocPage_lockstep h.twin .pageTable).zoom
      (fun _ u v twin => by rw [regular.view_put, regular'.view_put]; exact twin)
      (fun u v twin => by rw [regular.view_put, regular'.view_put]; exact twin)
  refine (both.and_post (allocPtPage_made regular.lawful h.leveled.wf)).mono ?_ ?_
  · rintro pa s' t' ⟨twin, cand, view⟩
    exact ⟨cand, view, twin⟩
  · rintro s' t' ⟨twin, skipped⟩
    exact ⟨lvl, .refl, h.leveled.skipped skipped, twin⟩

include regular regular' h in
theorem newTable_lockstep (here : lvl table = some ℓ) (hidx : idx < 512) :
    Prog.Lockstep (w.newTable table idx) (w'.newTable table idx) s t (w.Entering w' lvl (ℓ + 1))
      (w.Onward w' lvl) := by
  rw [regular.newTable_eq, regular'.newTable_eq]
  refine (allocPtPage_lockstep regular regular' h).bind ?_
  rintro pa s₁ t₁ ⟨cand, view₁, twin₁⟩
  obtain ⟨s₂, run₂, view₂⟩ := write_ok regular.lawful s₁ table idx (tableEntry pa)
  obtain ⟨t₂, runt₂, viewt₂⟩ := write_ok regular'.lawful t₁ table idx (tableEntry pa)
  have ran : (do w.write table idx (tableEntry pa); Prog.modify (w.track pa); return pa) s₁ =
      .ok pa (w.track pa s₂) := by
    rw [Prog.bind_ok run₂]
    rfl
  have rant : (do w'.write table idx (tableEntry pa); Prog.modify (w'.track pa); return pa) t₁ =
      .ok pa (w'.track pa t₂) := by
    rw [Prog.bind_ok runt₂]
    rfl
  have view₂' : w.view s₂ = ((w.view s).claim .pageTable pa).setMem (writePte
      ((w.view s).claim .pageTable pa).mem table idx (tableEntry pa)) := by rw [view₂, view₁]
  obtain ⟨lvl', more, next, linked⟩ := h.leveled.link .pageTable cand here hidx
    (fun _ _ _ => Mem.SameOn.refl _ _ _) fun i hi _ => by rw [readPte_claim hi]; exact .zero
  rw [← view₂'] at linked
  have twin₂ : (w.view s₂).Twin (w'.view t₂) := by
    rw [view₂, viewt₂, twin₁.mem_eq]
    exact twin₁.setMem _
  have spent : (w.view s₂).Spent pa := linked.spent pa _ next
  exact .of_ok ran rant ⟨lvl', more, next, linked.still (regular.track pa s₂).toStill,
    twin₂.registered spent (regular.track pa s₂) (regular'.track pa t₂)⟩

/-- The parts of a block may be entries of the next level. -/
def PartsOk (w : Walker S) (size type original ℓ : Nat) : Prop :=
  ∀ i lvl, EntryOk lvl ℓ (blockPart w.keptBits size type original i % 2 ^ 64)

include regular regular' h in
theorem split_lockstep {size type original : Nat} (here : lvl table = some ℓ) (hidx : idx < 512)
    (clean : KernelBlock original) (parts : w.PartsOk size type original (ℓ + 1)) :
    Prog.Lockstep (w.split size type table idx original) (w'.split size type table idx original) s t
      (w.Entering w' lvl (ℓ + 1)) (w.Onward w' lvl) := by
  rw [regular.split_eq, regular'.split_eq]
  refine (allocPtPage_lockstep regular regular' h).bind ?_
  rintro pa s₁ t₁ ⟨cand, view₁, twin₁⟩
  refine Prog.Lockstep.modify_bind ?_
  have left := regular.trackSplit pa s₁
  have spent₁ : (w.view s₁).Spent pa := by
    rw [view₁]
    exact (w.view s).spent_claim_self .pageTable pa
  have twin₂ := twin₁.registered spent₁ left (regular'.trackSplit pa t₁)
  -- both write the same parts
  have same : (fun i => w'.write pa i (blockPart w'.keptBits size type original i)) =
      fun i => w'.write pa i (blockPart w.keptBits size type original i) := by
    funext i
    rw [clean.blockPart_eq regular.mask regular'.mask]
  obtain ⟨s₂, run₂, view₂⟩ := forEach_write_ok regular.lawful
    (blockPart w.keptBits size type original) pa (List.range 512) (w.trackSplit pa s₁)
  obtain ⟨t₂, runt₂, viewt₂⟩ := forEach_write_ok regular'.lawful
    (blockPart w.keptBits size type original) pa (List.range 512) (w'.trackSplit pa t₁)
  obtain ⟨s₃, run₃, view₃⟩ := write_ok regular.lawful s₂ table idx (tableEntry pa)
  obtain ⟨t₃, runt₃, viewt₃⟩ := write_ok regular'.lawful t₂ table idx (tableEntry pa)
  have ran : (do
      Prog.forEach (fun i => w.write pa i (blockPart w.keptBits size type original i))
        (List.range 512)
      w.write table idx (tableEntry pa)
      return pa) (w.trackSplit pa s₁) = .ok pa s₃ := by
    rw [Prog.bind_ok run₂, Prog.bind_ok run₃]
    rfl
  have rant : (do
      Prog.forEach (fun i => w'.write pa i (blockPart w'.keptBits size type original i))
        (List.range 512)
      w'.write table idx (tableEntry pa)
      return pa) (w'.trackSplit pa t₁) = .ok pa t₃ := by
    rw [same, Prog.bind_ok runt₂, Prog.bind_ok runt₃]
    rfl
  obtain ⟨lvl', more, next, linked⟩ := h.leveled.link .pageTable cand here hidx
    (fun q al ne => fill_sameOn (f := blockPart w.keptBits size type original)
      (cand.aligned h.leveled.wf) al ne (fun i hi => List.mem_range.mp hi) _)
    fun i hi lvl' => by
      rw [readPte_fill_mem _ _ _ (List.mem_range.mpr hi)]
      exact parts i lvl'
  have still : (((w.view s).claim .pageTable pa).setMem (writePte (fill
      (blockPart w.keptBits size type original) pa (List.range 512)
      ((w.view s).claim .pageTable pa).mem) table idx (tableEntry pa))).Still (w.view s₃) := by
    rw [view₃, view₂, ← view₁, left.mem_eq, Mm.setMem_setMem, Mm.setMem_mem]
    refine ⟨?_, ?_, ?_⟩
    · rw [Mm.setMem_mem, Mm.setMem_mem]
    · rw [Mm.setMem_next, Mm.setMem_next, left.next_eq]
    · rw [Mm.setMem_end, Mm.setMem_end, left.end_eq]
  have twin₃ : (w.view s₃).Twin (w'.view t₃) := by
    rw [view₃, viewt₃, view₂, viewt₂, twin₂.mem_eq]
    generalize fill _ _ _ _ = filled
    exact (twin₂.setMem filled).setMem _
  exact .of_ok ran rant ⟨lvl', more, next, linked.still still, twin₃⟩

end Steps

/-! ### A whole mapping -/

section Page

variable {w : Walker S} {w' : Walker T} {s : S} {t : T} {lvl : Levels} {table idx ℓ : Nat}
  (regular : w.Regular) (regular' : w'.Regular)

include regular regular' in
/-- One level down, given what happens at a block. -/
theorem enterTable_lockstep (h : w.Beside w' lvl s t) (here : lvl table = some ℓ) (inner : ℓ < 3)
    (hidx : idx < 512) {onBlock : Nat → Nat → Nat → Prog S Status Nat}
    {onBlock' : Nat → Nat → Nat → Prog T Status Nat}
    (block : ∀ e, KernelBlock e → isTable e = false → Prog.Lockstep (onBlock table idx e)
      (onBlock' table idx e) s t (w.Entering w' lvl (ℓ + 1)) (w.Onward w' lvl)) :
    Prog.Lockstep (w.enterTable onBlock table idx) (w'.enterTable onBlock' table idx) s t
      (w.Entering w' lvl (ℓ + 1)) (w.Onward w' lvl) := by
  refine Prog.Lockstep.get_bind ?_
  have ok := h.leveled.entries table ℓ here idx hidx
  rw [h.twin.mem_eq]
  dsimp only
  split_ifs with isT valid
  · rw [Bool.and_eq_true] at isT
    exact .of_ok rfl rfl ⟨lvl, .refl, ok.table inner _ (ref_eq_some.mpr ⟨isT, rfl⟩), h⟩
  · have isB : isTable (readPte (w.view s).mem table idx) = false := by simpa [valid] using isT
    exact block _ (ok.block inner valid isB) isB
  · exact newTable_lockstep regular regular' h here hidx

include regular regular' in
/-- The two walks take the same steps and leave the same memory. -/
theorem mapPage_lockstep (h : w.Beside w' lvl s t) {root : Nat} (top : lvl root = some 0)
    (va pa : Nat) (flags : MapFlags) :
    Prog.Lockstep (w.mapPage root va pa flags) (w'.mapPage root va pa flags) s t
      (fun _ => w.Onward w' lvl) (w.Onward w' lvl) := by
  rw [regular.mapPage_eq, regular'.mapPage_eq]
  refine (enterTable_lockstep regular regular' h top (by decide) (vaL0Index_lt va)
    fun _ _ _ => .throw ⟨lvl, .refl, h⟩).bind ?_
  rintro l1 s₁ t₁ ⟨lvl₁, more₁, here₁, h₁⟩
  have onward₁ : ∀ u v, w.Onward w' lvl₁ u v → w.Onward w' lvl u v :=
    fun u v ⟨lvl', more, h⟩ => ⟨lvl', more₁.trans more, h⟩
  refine ((enterTable_lockstep regular regular' h₁ here₁ (by decide) (vaL1Index_lt va)
    fun e clean isB => split_lockstep regular regular' h₁ here₁ (vaL1Index_lt va) clean
      fun i _ => .of_block (by decide) (isTable_blockPart isB) (clean.blockPart regular.mask i)).mono
        (fun _ _ _ out => out) onward₁).bind ?_
  rintro l2 s₂ t₂ ⟨lvl₂, more₂, here₂, h₂⟩
  have onward₂ : ∀ u v, w.Onward w' lvl₂ u v → w.Onward w' lvl u v :=
    fun u v ⟨lvl', more, h⟩ => ⟨lvl', (more₁.trans more₂).trans more, h⟩
  refine ((enterTable_lockstep regular regular' h₂ here₂ (by decide) (vaL2Index_lt va)
    fun e clean isB => split_lockstep regular regular' h₂ here₂ (vaL2Index_lt va) clean
      fun i _ => .last).mono (fun _ _ _ out => out) onward₂).bind ?_
  rintro l3 s₃ t₃ ⟨lvl₃, more₃, here₃, h₃⟩
  obtain ⟨s₄, run₄, view₄⟩ := write_ok regular.lawful s₃ l3 (vaL3Index va) (pageEntry pa flags)
  obtain ⟨t₄, runt₄, viewt₄⟩ := write_ok regular'.lawful t₃ l3 (vaL3Index va) (pageEntry pa flags)
  refine .of_ok run₄ runt₄ (onward₂ _ _ ⟨lvl₃, more₃, ?_, ?_⟩)
  · rw [view₄]
    exact h₃.leveled.write here₃ (vaL3Index_lt va) .last
  · rw [view₄, viewt₄, h₃.twin.mem_eq]
    exact h₃.twin.setMem _

end Page

end Walker

/-! ## The other routines -/

section Build

variable {lvl : Levels} {m : Mem} {mm : Mm} {s : TreeState} {p ℓ i e : Nat}

theorem Leveled.start (wf : mm.WF) : Leveled (fun _ => none) mm := by
  refine ⟨wf, ?_, ?_, ?_⟩ <;> exact fun _ _ h => by cases h

/-- A fresh frame becomes an empty table. -/
theorem Leveled.claim (h : Leveled lvl mm) {pa : Nat} (cand : mm.Candidate pa) (ℓ : Nat) :
    ∃ lvl', lvl.Extends lvl' ∧ lvl' pa = some ℓ ∧ Leveled lvl' (mm.claim .pageTable pa) ∧
      ∀ q, q ≠ pa → lvl q = none → lvl' q = none := by
  obtain ⟨more, fresh⟩ := h.fresh .pageTable (ℓ := ℓ) cand
    (fun _ _ _ => Mem.SameOn.refl _ _ _) fun i hi _ _ => by rw [readPte_claim hi]; exact .zero
  exact ⟨_, more, Function.update_self _ _ _, fresh, fun q ne free => by
    rw [Function.update_of_ne ne, free]⟩

theorem Leveled.copyEntry (h : Leveled lvl mm) {src dst : Nat} (hsrc : lvl src = some ℓ)
    (hdst : lvl dst = some ℓ) (hi : i < 512) :
    Leveled lvl (mm.setMem (PageTableTree.copyEntry mm.mem src dst i)) := by
  unfold PageTableTree.copyEntry
  split_ifs
  · refine h.write hdst hi ?_
    rw [Nat.mod_eq_of_lt (show readPte mm.mem src i < 2 ^ 64 from Mem.load64_lt _ _)]
    exact h.entries src ℓ hsrc i hi
  · exact h

/-- The table behind an entry of a root that is not zero. -/
theorem Leveled.below_root (h : Leveled lvl mm) (top : lvl p = some 0) (hi : i < 512)
    (ne : readPte mm.mem p i ≠ 0) : lvl (pteAddr (readPte mm.mem p i)) = some 1 := by
  have ok := h.entries p 0 top i hi
  exact ok.table (by decide) _ (ref_eq_some.mpr ⟨(ok.root rfl).resolve_left ne, rfl⟩)

theorem PageTableTree.cloneHighHalf_leveled (h : Leveled lvl s.mm) {parent : Nat}
    (top : lvl parent = some 0) (own : s.tree.hasRoot = true → lvl s.tree.l0Pa = some 0) :
    Leveled lvl (PageTableTree.cloneHighHalf parent s).mm := by
  have copies : ∀ (is : List Nat) (mm : Mm), (∀ i ∈ is, i < 512) → lvl s.tree.l0Pa = some 0 →
      Leveled lvl mm → Leveled lvl (mm.setMem
        (is.foldl (fun m i => PageTableTree.copyEntry m parent s.tree.l0Pa i) mm.mem)) := by
    intro is
    induction is with
    | nil => exact fun mm _ _ h => h
    | cons i is ih =>
      intro mm bound mine h
      have rest := ih _ (fun j mem => bound j (by simp [mem])) mine
        (h.copyEntry top mine (bound i (by simp)))
      rw [Mm.setMem_setMem, Mm.setMem_mem] at rest
      rw [List.foldl_cons]
      exact rest
  unfold PageTableTree.cloneHighHalf
  split_ifs with rooted
  · have upper : ∀ i ∈ List.range' 256 256, i < 512 := fun i mem => by
      rw [List.mem_range'_1] at mem
      omega
    generalize List.range' 256 256 = is at upper
    exact copies is s.mm upper (own rooted) h
  · exact h

theorem PageTableTree.cloneIdentityBlock_leveled (h : Leveled lvl s.mm) {parent : Nat}
    (top : lvl parent = some 0) (own : s.tree.hasRoot = true → lvl s.tree.l0Pa = some 0) :
    Leveled lvl (PageTableTree.cloneIdentityBlock parent s).mm := by
  unfold PageTableTree.cloneIdentityBlock
  dsimp only
  split_ifs with both
  · obtain ⟨rooted, theirs, _, mine, _⟩ := both
    exact h.copyEntry (h.below_root top (by decide) theirs)
      (h.below_root (own rooted) (by decide) mine) (by decide)
  · exact h

theorem PageTableTree.allocateRoot_leveled (h : Leveled lvl s.mm) :
    Prog.Post PageTableTree.allocateRoot s
      (fun _ s' => ∃ lvl', lvl.Extends lvl' ∧ Leveled lvl' s'.mm ∧ lvl' s'.tree.l0Pa = some 0)
      (fun s' => s'.tree = s.tree ∧ ∃ lvl', lvl.Extends lvl' ∧ Leveled lvl' s'.mm) := by
  simp only [PageTableTree.allocateRoot, PageTableTree.cleanEntry_tableEntry]
  refine Prog.Post.get_bind ?_
  split_ifs
  · exact .throw ⟨rfl, lvl, .refl, h⟩
  refine Prog.Post.bind
    (Q := fun l0 s₁ => s.mm.Candidate l0 ∧ s₁ = { s with mm := s.mm.claim .pageTable l0 })
    (Prog.Post.zoom (allocPage_post h.wf .pageTable) (fun _ _ ok => ⟨ok.1, by rw [ok.2]⟩) ?_) ?_
  · rintro m ⟨n, ge, grid, rfl⟩
    exact ⟨rfl, lvl, .refl, h.skipped ⟨n, ge, grid, rfl⟩⟩
  rintro l0 s₁ ⟨cand0, rfl⟩
  obtain ⟨lvl₁, more₁, top, h₁, _⟩ := h.claim cand0 0
  refine Prog.Post.bind (Q := fun l1 s₂ => (s.mm.claim .pageTable l0).Candidate l1 ∧
      s₂ = { s with mm := (s.mm.claim .pageTable l0).claim .pageTable l1 })
    (Prog.Post.zoom (allocPage_post h₁.wf .pageTable) (fun _ _ ok => ⟨ok.1, by rw [ok.2]⟩) ?_) ?_
  · rintro m ⟨n, ge, grid, rfl⟩
    exact ⟨rfl, _, more₁, h₁.skipped ⟨n, ge, grid, rfl⟩⟩
  rintro l1 s₂ ⟨cand1, rfl⟩
  obtain ⟨lvl₂, more₂, _, h₂⟩ := h₁.link .pageTable cand1 top (by decide : 0 < 512)
    (fun _ _ _ => Mem.SameOn.refl _ _ _) fun j hj _ => by rw [readPte_claim hj]; exact .zero
  exact .of_ok ⟨(), _, rfl, lvl₂, more₁.trans more₂, h₂, more₂ _ _ top⟩

/-- One write of several. -/
theorem Leveled.writeMem (h : Leveled lvl (mm.setMem m)) (here : lvl p = some ℓ) (hi : i < 512)
    (ok : EntryOk lvl ℓ (e % 2 ^ 64)) : Leveled lvl (mm.setMem (writePte m p i e)) := by
  have written := h.write here hi ok
  rwa [Mm.setMem_setMem, Mm.setMem_mem] at written

theorem Leveled.writeBlock (h : Leveled lvl (mm.setMem m)) (here : lvl p = some 1) (hi : i < 512)
    (pa : Nat) (attr : MemAttr) : Leveled lvl (mm.setMem (writePte m p i (l1Block pa attr))) :=
  h.writeMem here hi (.of_block (by decide) (isTable_l1Block pa attr) (kernelBlock_l1Block pa attr))

/-- The second block of the upper table may lie behind it. -/
theorem Leveled.writeNext (h : Leveled lvl (mm.setMem m)) (here : lvl p = some 1)
    (behind : lvl (p + pageSize) = none) (hi : i < 512) (pa : Nat) (attr : MemAttr) :
    Leveled lvl (mm.setMem (writePte m p (i + 1) (l1Block pa attr))) := by
  by_cases last : i + 1 < 512
  · exact h.writeBlock here last pa attr
  · have eq : i + 1 = 512 := by omega
    rw [eq]
    refine h.of_sameOn (h.wf.setMem _) (fun _ hq => hq) fun q ℓ hq => ?_
    have al := h.aligned p 1 here
    have ne : p + pageSize ≠ q := by
      rintro rfl
      rw [behind] at hq
      cases hq
    have apart := page_disjoint (al.add (dvd_refl pageSize)) (h.aligned q ℓ hq) ne
    refine Mem.store64_sameOn ?_
    simp only [pageSize] at *
    omega

/-- The tables that are installed when the MMU is switched on. -/
theorem enableInner_leveled (wf : mm.WF) (ramBase : Nat) :
    Prog.Post (enableInner ramBase) mm
      (fun root mm' => ∃ lvl, Leveled lvl mm' ∧ lvl root = some 0) (fun _ => True) := by
  have alloc : ∀ {m : Mm}, m.WF → Prog.Post allocPtPage m
      (fun pa m' => m.Candidate pa ∧ m' = m.claim .pageTable pa) (fun _ => True) :=
    fun wf => (allocPage_post wf .pageTable).mono (fun _ _ ok => ok) fun _ _ => trivial
  refine Prog.Post.bind (alloc wf) ?_
  rintro l0 _ ⟨cand₀, rfl⟩
  obtain ⟨lvl₀, _, top, h₀, free₀⟩ := (Leveled.start wf).claim cand₀ 0
  refine Prog.Post.bind (alloc h₀.wf) ?_
  rintro l1Id _ ⟨cand₁, rfl⟩
  obtain ⟨lvl₁, more₁, identity, h₁, free₁⟩ := h₀.claim cand₁ 1
  refine Prog.Post.bind (alloc h₁.wf) ?_
  rintro l1High _ ⟨cand₂, rfl⟩
  obtain ⟨lvl, more₂, high, h, free₂⟩ := h₁.claim cand₂ 1
  have top := more₂ _ _ (more₁ _ _ top)
  have identity := more₂ _ _ identity
  -- the page behind the last table is none of the three
  have behind : lvl (l1High + pageSize) = none := by
    have ge₁ := cand₁.ge_cursor
    have ge₂ := cand₂.ge_cursor
    simp only [Mm.claim, Mm.setTag] at ge₁ ge₂
    refine free₂ _ (by simp [pageSize]) (free₁ _ (by omega) (free₀ _ (by omega) rfl))
  have lt₁ := cand₁.lt_addr
  have lt₂ := cand₂.lt_addr
  generalize Mm.claim _ _ l1High = mm₃ at h ⊢
  have h : Leveled lvl (mm₃.setMem mm₃.mem) := h
  have h := h.writeBlock identity (by decide : 0 < 512) 0 .device
  have h := h.writeBlock identity (by decide : 1 < 512) 0x40000000 .normalCacheable
  have h := h.writeBlock identity (by decide : 2 < 512) 0x80000000 .normalCacheable
  have h := h.writeBlock high (vaL1Index_lt (wadd ramBase kernelOffset)) 0x40000000 .normalCacheable
  have h := h.writeNext high behind (vaL1Index_lt (wadd ramBase kernelOffset)) 0x80000000
    .normalCacheable
  have h := h.writeMem top (by decide : 0 < 512) (.tableEntry identity (h.aligned _ _ identity) lt₁)
  have h := h.writeMem top (vaL0Index_lt (wadd ramBase kernelOffset))
    (.tableEntry high (h.aligned _ _ high) lt₂)
  exact Prog.Post.modify_bind (.pure ⟨lvl, h, top⟩)

end Build

end CapsuleOS
