import CapsuleOS.Memory.Vmar

/-!
# First fit in a region

The search for a subregion starts again behind every conflict it meets, in whatever order the children and
mappings are listed. `Vmar.Fits` says what it looks for. No place that it jumps over fits, and each jump
goes up, so that the search ends and finds the lowest place.
-/
namespace CapsuleOS

open Lib

/-- Two ranges have a byte in common. -/
def Overlap (a n b k : Nat) : Prop := ∃ x, (a ≤ x ∧ x < a + n) ∧ b ≤ x ∧ x < b + k

theorem overlap_iff {a n b k : Nat} (hn : 0 < n) (hk : 0 < k) :
    Overlap a n b k ↔ a < b + k ∧ b < a + n := by
  constructor
  · rintro ⟨x, _, _⟩
    omega
  · rintro ⟨_, _⟩
    exact ⟨max a b, by omega, by omega⟩

namespace Vmar

/-! ## Page bounds -/

theorem roundUp_eq {a : Nat} (h : a ≤ 2 ^ 48) : roundUp a = (a + 4095) / 4096 * 4096 := by
  have page : pageSize = 4096 := rfl
  rw [roundUp, page, wadd_eq (by omega), wsub_eq (by omega) (by omega),
    show a + 4096 - 1 = a + 4095 by omega]

theorem roundUp_dvd (a : Nat) : pageSize ∣ roundUp a := Dvd.intro_left _ rfl

theorem le_roundUp {a : Nat} (h : a ≤ 2 ^ 48) : a ≤ roundUp a ∧ roundUp a ≤ 2 ^ 48 := by
  rw [roundUp_eq h]
  omega

/-- A multiple of the page size below the rounded end is below the end. -/
theorem lt_of_lt_roundUp {a x : Nat} (h : a ≤ 2 ^ 48) (aligned : pageSize ∣ x) (lt : x < roundUp a) :
    x < a := by
  rw [roundUp_eq h] at lt
  have : (4096 : Nat) ∣ x := aligned
  omega

theorem roundUp_of_dvd {a : Nat} (h : a ≤ 2 ^ 48) (aligned : pageSize ∣ a) : roundUp a = a := by
  have : (4096 : Nat) ∣ a := aligned
  rw [roundUp_eq h]
  omega

/-! ## What the operations keep -/

/-- No range that is recorded is empty, and every child has its page. -/
structure WF (r : Vmar) : Prop where
  base : pageSize ∣ r.base
  child : ∀ c ∈ r.children, 0 < c.size ∧ c.metaPa.isSome
  mapping : ∀ m ∈ r.mappings, 0 < m.size

theorem create_wf {base size : Nat} {mm mm' : Mm} {r : Vmar} (h : create base size mm = .ok r mm') :
    r.WF := by
  unfold create at h
  split_ifs at h with bad
  · cases h
  · obtain ⟨pa, u, _, h⟩ := Prog.bind_eq_ok h
    cases h
    have aligned : base % pageSize = 0 := by
      by_contra off
      exact bad (.inl off)
    refine ⟨Nat.dvd_of_mod_eq_zero aligned, ?_, ?_⟩ <;> intro x hx <;> cases hx

theorem WF.reserveMapping {r r' : Vmar} (wf : r.WF) {vmoId vmoOffset va size : Nat} {flags : VmarFlags}
    (h : r.reserveMapping vmoId vmoOffset va size flags = .ok r') : r'.WF := by
  unfold Vmar.reserveMapping at h
  split_ifs at h with bad
  cases h
  refine ⟨wf.base, wf.child, fun m hm => ?_⟩
  rcases List.mem_append.mp hm with hm | hm
  · exact wf.mapping m hm
  · rw [List.mem_singleton.mp hm]
    exact Nat.pos_of_ne_zero fun zero => bad (.inl zero)

theorem WF.allocateSubregion {r r' child : Vmar} (wf : r.WF) {fuel size : Nat} {mm mm' : Mm}
    (h : r.allocateSubregion fuel size mm = .ok (child, r') mm') : r'.WF ∧ child.WF := by
  unfold Vmar.allocateSubregion at h
  split_ifs at h with zero full
  · cases h
  · cases h
  · cases found : Round.loop (r.tryCandidate (roundUp size)) fuel r.base with
    | none =>
      simp only [found] at h
      cases h
    | some result =>
      simp only [found] at h
      cases result with
      | error e => cases h
      | ok candidate =>
        obtain ⟨c, u, made, h⟩ := Prog.bind_eq_ok h
        have built := create_wf made
        cases h
        refine ⟨⟨wf.base, fun c hc => ?_, wf.mapping⟩, built⟩
        rcases List.mem_append.mp hc with hc | hc
        · exact wf.child c hc
        · rw [List.mem_singleton.mp hc]
          refine ⟨Nat.pos_of_ne_zero fun empty => ?_, rfl⟩
          unfold create at made
          rw [if_pos (.inr empty)] at made
          cases made

/-! ## One round -/

/-- Everything that is recorded ends below `2 ^ 48`. -/
structure Low (r : Vmar) : Prop where
  region : r.base + r.size < 2 ^ 48
  child : ∀ c ∈ r.children, c.base + c.size < 2 ^ 48
  mapping : ∀ m ∈ r.mappings, m.virtAddr + m.size < 2 ^ 48

/-- A subregion of `size` bytes can start at `a`. -/
structure Fits (r : Vmar) (size a : Nat) : Prop where
  aligned : pageSize ∣ a
  above : r.base ≤ a
  inside : a + roundUp size ≤ r.base + r.size
  child : ∀ c ∈ r.children, ¬ Overlap a (roundUp size) c.base c.size
  mapping : ∀ m ∈ r.mappings, ¬ Overlap a (roundUp size) m.virtAddr m.size

variable {r : Vmar} {size candidate base len : Nat}

theorem conflicts_iff (hc : candidate ≤ 2 ^ 48) (hs : size ≤ 2 ^ 48) (pos : 0 < size)
    (hb : base + len < 2 ^ 48) (hl : 0 < len) :
    conflicts candidate size base len = true ↔ Overlap candidate size base len := by
  rw [overlap_iff pos hl, conflicts, wadd_eq (by omega), wadd_eq (by omega), Bool.and_eq_true,
    decide_eq_true_eq, decide_eq_true_eq]

/-- Nothing that starts from here on, up to the rounded end of a range in conflict, misses that range. -/
theorem jump (pos : 0 < size) (hb : base + len < 2 ^ 48) (hl : 0 < len)
    (met : Overlap candidate size base len) :
    candidate < roundUp (wadd base len) ∧ roundUp (wadd base len) ≤ 2 ^ 48 ∧
      ∀ a, pageSize ∣ a → candidate ≤ a → a < roundUp (wadd base len) → Overlap a size base len := by
  obtain ⟨before, after⟩ := (overlap_iff pos hl).mp met
  rw [wadd_eq (by omega)]
  obtain ⟨up, below⟩ := le_roundUp (a := base + len) (by omega)
  refine ⟨by omega, below, fun a ha from_ lt => (overlap_iff pos hl).mpr ⟨?_, by omega⟩⟩
  exact lt_of_lt_roundUp (by omega) ha lt

/-- What a round at `candidate` does. -/
inductive Tried (r : Vmar) (size candidate : Nat) : Round Nat (Except Status Nat) → Prop where
  | outside (h : r.base + r.size < candidate + roundUp size) :
      Tried r size candidate (.leave (.error .noMemory))
  | skip (next : Nat) (up : candidate < next) (low : next ≤ 2 ^ 48) (aligned : pageSize ∣ next)
      (none_between : ∀ a, r.Fits size a → candidate ≤ a → next ≤ a) : Tried r size candidate (.again next)
  | found (h : r.Fits size candidate) : Tried r size candidate (.leave (.ok candidate))

theorem tried (wf : r.WF) (low : r.Low) (pos : 0 < size) (small : size ≤ 2 ^ 48)
    (aligned : pageSize ∣ candidate) (above : r.base ≤ candidate) (hc : candidate ≤ 2 ^ 48) :
    Tried r size candidate (r.tryCandidate (roundUp size) candidate) := by
  obtain ⟨up, hs⟩ := le_roundUp small
  have pos' : 0 < roundUp size := by omega
  have region := low.region
  unfold tryCandidate
  rw [wadd_eq (by omega), wadd_eq (by omega)]
  split_ifs with out
  · exact .outside out
  · cases inChildren : r.children.find? fun c =>
        c.metaPa.isSome && conflicts candidate (roundUp size) c.base c.size with
    | some c =>
      have mem := List.mem_of_find?_eq_some inChildren
      have met := List.find?_some inChildren
      rw [(wf.child c mem).2, Bool.true_and,
        conflicts_iff hc hs pos' (low.child c mem) (wf.child c mem).1] at met
      obtain ⟨lt, le, between⟩ := jump pos' (low.child c mem) (wf.child c mem).1 met
      refine .skip _ lt le (roundUp_dvd _) fun a fits ge => ?_
      by_contra less
      exact fits.child c mem (between a fits.aligned ge (by omega))
    | none =>
      have clear := List.find?_eq_none.mp inChildren
      cases inMappings : r.mappings.find? fun m =>
          conflicts candidate (roundUp size) m.virtAddr m.size with
      | some m =>
        have mem := List.mem_of_find?_eq_some inMappings
        have met := List.find?_some inMappings
        rw [conflicts_iff hc hs pos' (low.mapping m mem) (wf.mapping m mem)] at met
        obtain ⟨lt, le, between⟩ := jump pos' (low.mapping m mem) (wf.mapping m mem) met
        refine .skip _ lt le (roundUp_dvd _) fun a fits ge => ?_
        by_contra less
        exact fits.mapping m mem (between a fits.aligned ge (by omega))
      | none =>
        have clear' := List.find?_eq_none.mp inMappings
        refine .found ⟨aligned, above, by omega, fun c mem => ?_, fun m mem => ?_⟩
        · rw [← conflicts_iff hc hs pos' (low.child c mem) (wf.child c mem).1]
          simpa [(wf.child c mem).2] using clear c mem
        · rw [← conflicts_iff hc hs pos' (low.mapping m mem) (wf.mapping m mem)]
          exact clear' m mem

/-! ## The search -/

/-- Nothing below `candidate` fits. -/
structure Reached (r : Vmar) (size candidate : Nat) : Prop where
  aligned : pageSize ∣ candidate
  above : r.base ≤ candidate
  low : candidate ≤ 2 ^ 48
  least : ∀ a, r.Fits size a → candidate ≤ a

/-- The result of the search. -/
inductive Searched (r : Vmar) (size : Nat) : Except Status Nat → Prop where
  | noMemory (h : ∀ a, ¬ r.Fits size a) : Searched r size (.error .noMemory)
  | found (a : Nat) (h : r.Fits size a) (least : ∀ b, r.Fits size b → a ≤ b) : Searched r size (.ok a)

theorem reached_base (wf : r.WF) (low : r.Low) : r.Reached size r.base :=
  ⟨wf.base, le_rfl, by have := low.region; omega, fun _ fits => fits.above⟩

/-- A restart passes nothing that fits and goes up. -/
theorem Reached.again (wf : r.WF) (low : r.Low) (pos : 0 < size) (small : size ≤ 2 ^ 48) {next : Nat}
    (h : r.Reached size candidate) (turn : r.tryCandidate (roundUp size) candidate = .again next) :
    r.Reached size next ∧ 2 ^ 48 - next < 2 ^ 48 - candidate := by
  have round := tried wf low pos small h.aligned h.above h.low
  rw [turn] at round
  cases round with
  | skip _ up low' aligned between =>
    have above := h.above
    exact ⟨⟨aligned, by omega, low', fun a fits => between a fits (h.least a fits)⟩, by omega⟩

theorem Reached.leave (wf : r.WF) (low : r.Low) (pos : 0 < size) (small : size ≤ 2 ^ 48)
    {result : Except Status Nat} (h : r.Reached size candidate)
    (turn : r.tryCandidate (roundUp size) candidate = .leave result) : r.Searched size result := by
  have round := tried wf low pos small h.aligned h.above h.low
  rw [turn] at round
  cases round with
  | outside out =>
    refine .noMemory fun a fits => ?_
    have ge := h.least a fits
    have inside := fits.inside
    omega
  | found fits => exact .found candidate fits h.least

theorem search_ends (wf : r.WF) (low : r.Low) (pos : 0 < size) (small : size ≤ 2 ^ 48) :
    ∃ result, Round.Leaves (r.tryCandidate (roundUp size)) r.base result ∧ r.Searched size result := by
  have start : r.Reached size r.base := reached_base wf low
  obtain ⟨result, ended⟩ := Round.exists_leaves (fun candidate => 2 ^ 48 - candidate) start
    fun _ _ h turn => h.again wf low pos small turn
  refine ⟨result, ended, ended.post start ?_ ?_⟩
  · exact fun _ _ h turn => (h.again wf low pos small turn).1
  · exact fun _ _ h turn => h.leave wf low pos small turn

/-! ## The new subregion -/

/-- The region with one more child on record. -/
def withChild (r : Vmar) (base size pa : Nat) : Vmar :=
  { r with children := r.children ++ [{ base, size, metaPa := some pa }] }

theorem create_rounded {a pa : Nat} {mm mm' : Mm} (pos : 0 < size) (small : size ≤ 2 ^ 48)
    (aligned : pageSize ∣ a) (metadata : allocVmarMeta mm = .ok pa mm') :
    create a (roundUp size) mm =
      .ok { base := a, size := roundUp size, metaPage := pa, children := [], mappings := [] } mm' := by
  obtain ⟨up, le⟩ := le_roundUp small
  have twice := roundUp_of_dvd le (roundUp_dvd size)
  have fine : ¬ (a % pageSize ≠ 0 ∨ roundUp size = 0) := by
    rintro (off | zero)
    · exact off (Nat.mod_eq_zero_of_dvd aligned)
    · omega
  unfold create
  rw [if_neg fine]
  refine (Prog.bind_ok metadata).trans ?_
  rw [Prog.pure_apply]
  exact congrArg (fun n => Outcome.ok (Vmar.mk a n pa [] []) mm') twice

/-- What is left to do once the search has a result. -/
theorem allocateSubregion_of_loop {fuel : Nat} (mm : Mm) {result : Option (Except Status Nat)}
    (pos : 0 < size) (room : r.children.length < 32)
    (searched : Round.loop (r.tryCandidate (roundUp size)) fuel r.base = result) :
    (result = some (.error .noMemory) → r.allocateSubregion fuel size mm = .err .noMemory mm) ∧
      ∀ a, result = some (.ok a) → r.allocateSubregion fuel size mm =
        (create a (roundUp size) >>= fun child =>
          pure (child, r.withChild a (roundUp size) child.metaPage)) mm := by
  have room' : ¬ r.children.length ≥ maxChildren := Nat.not_le_of_lt room
  unfold allocateSubregion
  rw [if_neg (Nat.pos_iff_ne_zero.mp pos), if_neg room']
  simp only [searched]
  refine ⟨?_, fun a => ?_⟩ <;> rintro rfl
  · rfl
  · rfl

end Vmar

open Vmar in
theorem allocate_subregion_first_fit {r : Vmar} {size pa : Nat} {mm mm' : Mm} (wf : r.WF) (low : r.Low)
    (pos : 1 ≤ size) (small : size ≤ 2 ^ 48) (metadata : allocVmarMeta mm = .ok pa mm') :
    ∃ rounds, ∀ fuel ≥ rounds,
      ((r.allocateSubregion fuel size mm).error? = some .noMemory ↔
        32 ≤ r.children.length ∨ ∀ a, ¬ r.Fits size a) ∧
      (r.children.length < 32 → (∃ a, r.Fits size a) →
        ∃ a, r.Fits size a ∧ (∀ b, r.Fits size b → a ≤ b) ∧
          r.allocateSubregion fuel size mm =
            .ok ({ base := a, size := roundUp size, metaPage := pa, children := [], mappings := [] },
              r.withChild a (roundUp size) pa) mm') := by
  obtain ⟨result, ⟨rounds, ended⟩, searched⟩ := search_ends wf low pos small
  refine ⟨rounds, fun fuel enough => ?_⟩
  have ended' := Round.loop_add ended (fuel - rounds)
  rw [Nat.add_sub_cancel' enough] at ended'
  by_cases room : r.children.length < 32
  · obtain ⟨failed, found⟩ := allocateSubregion_of_loop mm pos room ended'
    cases searched with
    | noMemory none_fits =>
      rw [failed rfl]
      refine ⟨⟨fun _ => .inr none_fits, fun _ => rfl⟩, ?_⟩
      rintro _ ⟨a, fits⟩
      exact absurd fits (none_fits a)
    | found a fits least =>
      have made : r.allocateSubregion fuel size mm =
          .ok ({ base := a, size := roundUp size, metaPage := pa, children := [], mappings := [] },
            r.withChild a (roundUp size) pa) mm' := by
        rw [found a rfl]
        exact Prog.bind_ok (create_rounded pos small fits.aligned metadata)
      rw [made]
      refine ⟨⟨fun failed => ?_, ?_⟩, fun _ _ => ⟨a, fits, least, rfl⟩⟩
      · cases failed
      rintro (full | none_fits)
      · omega
      · exact absurd fits (none_fits a)
  · have many : r.children.length ≥ maxChildren := Nat.le_of_not_lt room
    have full : r.allocateSubregion fuel size mm = .err .noMemory mm := by
      unfold allocateSubregion
      rw [if_neg (Nat.pos_iff_ne_zero.mp pos), if_pos many]
      rfl
    rw [full]
    exact ⟨⟨fun _ => .inl (Nat.le_of_not_lt room), fun _ => rfl⟩, fun room' => absurd room' room⟩

/-- A region of five pages. A mapping lies in the first page and fills a part of it, a child is the
second page. -/
def Vmar.holes : Vmar where
  base := 0x1000
  size := 0x5000
  metaPage := 0x40200000
  children := [⟨0x2000, 0x1000, some 0x40201000⟩]
  mappings := [⟨1, 0, 0x1000, 0x800, .read, true⟩]

theorem allocate_subregion_first_fit_holes : ∃ rounds, ∀ fuel ≥ rounds,
    ∃ a, Vmar.holes.Fits 0x1800 a ∧ (∀ b, Vmar.holes.Fits 0x1800 b → a ≤ b) ∧
      (Vmar.holes.allocateSubregion fuel 0x1800 (Mm.boot 0x40202000 0x50000000)).value?.isSome := by
  have created : Vmar.create 0x1000 0x5000 (Mm.boot 0x40200000 0x50000000) =
      .ok ⟨0x1000, 0x5000, 0x40200000, [], []⟩ _ := Outcome.eq_ok_of_value? (by decide +kernel)
  have mapped : Vmar.reserveMapping ⟨0x1000, 0x5000, 0x40200000, [], []⟩ 1 0 0x1000 0x800 .read =
      .ok { Vmar.holes with children := [] } := rfl
  have split : Vmar.allocateSubregion 8 { Vmar.holes with children := [] } 0x1000
      (Mm.boot 0x40201000 0x50000000) = .ok (⟨0x2000, 0x1000, 0x40201000, [], []⟩, Vmar.holes) _ :=
    Outcome.eq_ok_of_value? (by decide +kernel)
  have wf : Vmar.holes.WF := (((Vmar.create_wf created).reserveMapping mapped).allocateSubregion split).1
  have low : Vmar.holes.Low := ⟨by decide, by decide, by decide⟩
  have metadata : allocVmarMeta (Mm.boot 0x40202000 0x50000000) = .ok 0x40202000 _ :=
    Outcome.eq_ok_of_value? (by decide +kernel)
  have fits : Vmar.holes.Fits 0x1800 0x3000 := by
    refine ⟨by decide, by decide, by decide, fun c hc => ?_, fun m hm => ?_⟩
    · rw [List.mem_singleton.mp hc, overlap_iff (by decide) (by decide)]
      decide
    · rw [List.mem_singleton.mp hm, overlap_iff (by decide) (by decide)]
      decide
  have pos : 1 ≤ 0x1800 := by decide
  have small : 0x1800 ≤ 2 ^ 48 := by decide
  obtain ⟨rounds, all⟩ := allocate_subregion_first_fit wf low pos small metadata
  refine ⟨rounds, fun fuel enough => ?_⟩
  obtain ⟨a, found, least, made⟩ := (all fuel enough).2 (by decide) ⟨_, fits⟩
  exact ⟨a, found, least, by rw [made]; rfl⟩

end CapsuleOS
