import CapsuleOS.Memory.VmoBacking

/-!
# A VMO refines a flat byte array

The abstract object is a list of bytes of fixed length. A read copies a window out of it, a write
overwrites a window, and both stop at the end of the array. The loops of `Vmo::read` and
`Vmo::write`, which split at page boundaries and commit pages on the way, compute the same.
-/
namespace CapsuleOS

open Lib

namespace FlatArray

/-- How many bytes a transfer of `len` bytes at `offset` moves. -/
def span (a : List UInt8) (offset len : Nat) : Nat := min len (a.length - offset)

def read (a : List UInt8) (offset : Nat) (buf : List UInt8) : Nat × List UInt8 :=
  let n := span a offset buf.length
  (n, splice buf 0 ((a.drop offset).take n))

def write (a : List UInt8) (offset : Nat) (buf : List UInt8) : Nat × List UInt8 :=
  let n := span a offset buf.length
  (n, splice a offset (buf.take n))

end FlatArray

namespace Vmo

/-! ## Chunks -/

section Chunk

variable {size len written cur : Nat}

theorem chunk_pos (hw : written < len) (hc : cur < size) : 0 < chunk size len written cur := by
  have : cur % pageSize < pageSize := Nat.mod_lt _ (by simp [pageSize])
  unfold chunk
  omega

theorem chunk_le (hc : cur < size) :
    chunk size len written cur ≤ min (len - written) (size - cur) := by
  unfold chunk
  omega

theorem chunk_le_page (size len written cur : Nat) :
    cur % pageSize + chunk size len written cur ≤ pageSize := by
  have : cur % pageSize < pageSize := Nat.mod_lt _ (by simp [pageSize])
  unfold chunk
  omega

/-- The offsets of one chunk lie on one page. -/
theorem chunk_page {i : Nat} (hi : i < chunk size len written cur) :
    (cur + i) / pageSize = cur / pageSize ∧ (cur + i) % pageSize = cur % pageSize + i := by
  have fit := chunk_le_page size len written cur
  have split := Nat.div_add_mod cur pageSize
  have key : (cur + i) / pageSize = cur / pageSize ∧ (cur + i) % pageSize = cur % pageSize + i := by
    rw [Nat.div_mod_unique (by simp [pageSize])]
    omega
  exact key

end Chunk

/-! ## Reading -/

section Read

variable (v : Vmo) (m : Mem)

theorem window_getElem? {cur n i : Nat} (hi : i < n) (fit : cur + n ≤ v.size) :
    (((v.contents m).drop cur).take n)[i]? = some (v.byteAt m (cur + i)) := by
  rw [List.getElem?_take_of_lt hi, List.getElem?_drop, contents_getElem?, if_pos (by omega)]

/-- The bytes that one round of the reading loop produces. -/
theorem read_chunk {len written cur : Nat} (hc : cur < v.size) :
    v.pageBytes m cur (chunk v.size len written cur) =
      ((v.contents m).drop cur).take (chunk v.size len written cur) := by
  have le : chunk v.size len written cur ≤ min (len - written) (v.size - cur) := chunk_le hc
  apply List.ext_getElem?
  intro i
  by_cases hi : i < chunk v.size len written cur
  · obtain ⟨page, off⟩ := chunk_page hi
    rw [window_getElem? v m hi (by omega), pageBytes, byteAt, page, off]
    cases v.slot m (cur / pageSize) with
    | none => simp [hi]
    | some pa =>
      simp only [Mem.load, List.getElem?_map, List.getElem?_range hi, Option.map_some]
      congr 2
      omega
  · have len_eq : (v.pageBytes m cur (chunk v.size len written cur)).length =
        chunk v.size len written cur := by unfold pageBytes; split <;> simp
    rw [List.getElem?_eq_none (by omega), List.getElem?_eq_none (by simp; omega)]

theorem readLoop_eq (fuel written cur : Nat) (buf : List UInt8) (enough : buf.length - written ≤ fuel)
    (le : written ≤ buf.length) :
    readLoop v m fuel written cur buf =
      (written + min (buf.length - written) (v.size - cur),
        splice buf written
          (((v.contents m).drop cur).take (min (buf.length - written) (v.size - cur)))) := by
  induction fuel generalizing written cur buf with
  | zero =>
    have none_left : min (buf.length - written) (v.size - cur) = 0 := by omega
    simp [readLoop, none_left]
  | succ fuel ih =>
    rw [readLoop]
    split_ifs with more
    · simp only [read_chunk v m more.2]
      set c := chunk v.size buf.length written cur with hc
      have pos := chunk_pos more.1 more.2
      have cle : c ≤ min (buf.length - written) (v.size - cur) := chunk_le more.2
      rw [← hc] at pos
      have taken : (((v.contents m).drop cur).take c).length = c := by simp; omega
      have kept : (splice buf written (((v.contents m).drop cur).take c)).length = buf.length :=
        splice_length (by rw [taken]; omega)
      rw [ih _ _ _ (by rw [kept]; omega) (by rw [kept]; omega), kept]
      have rest : min (buf.length - (written + c)) (v.size - (cur + c)) =
          min (buf.length - written) (v.size - cur) - c := by omega
      have whole : min (buf.length - written) (v.size - cur) =
          c + (min (buf.length - written) (v.size - cur) - c) := by omega
      rw [rest]
      refine Prod.ext (by simp only; omega) ?_
      simp only
      nth_rewrite 2 [whole]
      rw [List.take_add, List.drop_drop, ← splice_splice, taken]
      rw [taken, List.length_take, List.length_drop, contents_length]
      omega
    · have none_left : min (buf.length - written) (v.size - cur) = 0 := by omega
      simp [none_left]

/-- `Vmo::read` copies a window of the content. -/
theorem read_eq (offset : Nat) (buf : List UInt8) :
    v.read m offset buf = FlatArray.read (v.contents m) offset buf := by
  unfold read FlatArray.read FlatArray.span
  split_ifs with past
  · have none_left : min buf.length (v.size - offset) = 0 := by omega
    simp [none_left]
  · rw [readLoop_eq v m _ _ _ _ (by omega) (by omega)]
    simp

end Read

/-! ## Writing -/

/-- The number of pages without a frame. -/
def missing (v : Vmo) (m : Mem) : Nat :=
  ((Finset.range v.pageCount).filter fun i => v.slot m i = none).card

/-- The object may commit pages, and there are frames for all that are missing. -/
structure Room (s : VmoState) : Prop where
  owner : s.vmo.committedPages ≠ []
  frames : s.mm.CanAlloc .vmoData (s.vmo.missing s.mm.mem)

section Write

variable {s : VmoState}

/-- The page that has just been committed is the only one that is no longer missing. -/
theorem missing_enter (h : s.Valid) {i pa : Nat} (hi : i < s.vmo.pageCount)
    (cand : s.mm.Candidate pa) (absent : s.vmo.slot s.mm.mem i = none) :
    s.vmo.missing s.mm.mem =
      s.vmo.missing (s.vmo.enter i pa (s.mm.claim .vmoData pa)).mm.mem + 1 := by
  have after : ((Finset.range s.vmo.pageCount).filter fun j =>
      s.vmo.slot (s.vmo.enter i pa (s.mm.claim .vmoData pa)).mm.mem j = none) =
      ((Finset.range s.vmo.pageCount).filter fun j => s.vmo.slot s.mm.mem j = none).erase i := by
    ext j
    simp only [Finset.mem_filter, Finset.mem_range, Finset.mem_erase]
    by_cases hj : j < s.vmo.pageCount
    · rw [slot_enter (h.backed.claim h.wf .vmoData cand) hi hj cand.lt_word,
        slot_claim h.backed h.wf cand hj]
      by_cases eq : j = i <;> simp [eq, hj]
    · simp [hj]
  have mem : i ∈ (Finset.range s.vmo.pageCount).filter fun j => s.vmo.slot s.mm.mem j = none := by
    simp [hi, absent]
  rw [missing, missing, after, Finset.card_erase_of_mem mem]
  have := Finset.card_pos.mpr ⟨i, mem⟩
  omega

/-- Committing a missing page succeeds when there is room, and leaves room for the others. -/
theorem commitPage_room (h : s.Valid) {offset : Nat} (lt : offset < s.vmo.size)
    (ok : Committable s offset) (room : Room s) :
    ∃ r, commitPage offset s = .ok r (commitPage offset s).state ∧
      Room (commitPage offset s).state := by
  have some_missing : s.vmo.slot s.mm.mem (offset / pageSize) = none →
      ∃ k, s.vmo.missing s.mm.mem = k + 1 := by
    intro absent
    have : 0 < s.vmo.missing s.mm.mem :=
      Finset.card_pos.mpr ⟨offset / pageSize, by simp [absent, h.backed.page_lt lt]⟩
    exact ⟨_, (Nat.succ_pred_eq_of_pos this).symm⟩
  have result := commitPage_result s offset h.wf h.backed h.owns
  generalize commitPage offset s = out at result
  cases result with
  | outOfRange past => omega
  | borrowed nil => exact absurd nil room.owner
  | present _ _ => exact ⟨_, rfl, room⟩
  | committed pa lt entry cand alloc =>
    refine ⟨_, rfl, ?_, ?_⟩
    · intro nil
      have len := congrArg List.length nil
      have inside := (List.getElem?_eq_some_iff.mp entry).choose
      simp only [Outcome.state_ok, enter, List.length_set, List.length_nil] at len
      exact Nat.not_lt_zero _ (len ▸ inside)
    · have absent := ok entry lt
      have room' := room.frames
      rw [missing_enter h (h.backed.page_lt lt) cand absent] at room'
      obtain ⟨pa', t, halloc, rest⟩ := room'
      rw [allocVmoData, halloc] at alloc
      cases alloc
      exact rest.congr ⟨rfl, rfl, rfl, rfl⟩
  | exhausted n _ entry failed _ _ =>
    obtain ⟨k, hk⟩ := some_missing (ok entry lt)
    have room' := room.frames
    rw [hk] at room'
    obtain ⟨_, _, halloc, _⟩ := room'
    rw [allocVmoData, halloc] at failed
    cases failed
  | panicked n _ entry failed _ _ =>
    obtain ⟨k, hk⟩ := some_missing (ok entry lt)
    have room' := room.frames
    rw [hk] at room'
    obtain ⟨_, _, halloc, _⟩ := room'
    rw [allocVmoData, halloc] at failed
    cases failed

theorem committable_of_absent {offset : Nat}
    (absent : s.vmo.slot s.mm.mem (offset / pageSize) = none) : Committable s offset :=
  fun _ _ => absent

theorem page_start (cur : Nat) : cur / pageSize * pageSize / pageSize = cur / pageSize :=
  Nat.mul_div_cancel _ (by simp [pageSize])

/-- Before a chunk is written its page has a frame; committing it changes no content. -/
theorem ensureSlot_spec (h : s.Valid) {cur : Nat} (lt : cur < s.vmo.size) :
    Extends s (ensureSlot cur s).state ∧
      s.vmo.contents (ensureSlot cur s).state.mm.mem = s.vmo.contents s.mm.mem ∧
      (∀ u t, ensureSlot cur s = .ok u t → ∃ p, t.vmo.slot t.mm.mem (cur / pageSize) = some p) ∧
      (Room s → ∃ u, ensureSlot cur s = .ok u (ensureSlot cur s).state ∧
        Room (ensureSlot cur s).state) := by
  cases hs : s.vmo.slot s.mm.mem (cur / pageSize) with
  | some p =>
    have stays : ensureSlot cur s = .ok () s := by simp [ensureSlot, Prog.bind_apply, hs]
    rw [stays]
    refine ⟨.refl h, rfl, ?_, fun room => ⟨_, rfl, room⟩⟩
    rintro u t ⟨⟩
    exact ⟨p, hs⟩
  | none =>
    have absent : s.vmo.slot s.mm.mem (cur / pageSize * pageSize / pageSize) = none := by
      rw [page_start, hs]
    have lt' : cur / pageSize * pageSize < s.vmo.size :=
      (Nat.div_mul_le_self cur pageSize).trans_lt lt
    have step : ensureSlot cur s = match commitPage (cur / pageSize * pageSize) s with
        | .ok _ t => .ok () t
        | .err e t => .err e t
        | .fault t => .fault t := by
      simp only [ensureSlot, Prog.bind_apply, Prog.get_apply, hs, Option.isNone_none, if_true]
      cases commitPage (cur / pageSize * pageSize) s <;> rfl
    have ext := commitPage_extends h (committable_of_absent absent)
    have room := commitPage_room h lt' (committable_of_absent absent)
    have result := commitPage_result s (cur / pageSize * pageSize) h.wf h.backed h.owns
    generalize commitPage (cur / pageSize * pageSize) s = out at step ext room result
    have state_eq : (ensureSlot cur s).state = out.state := by rw [step]; cases out <;> rfl
    rw [state_eq]
    refine ⟨ext.1, ext.2, ?_, ?_⟩
    · intro u t eq
      rw [step] at eq
      cases result with
      | present p entry =>
        rw [page_start] at entry
        rw [h.owns.own _ p entry] at hs
        cases hs
      | committed pa _ entry cand _ =>
        cases eq
        refine ⟨pa, ?_⟩
        have page := h.backed.page_lt lt
        have entered := slot_enter (h.backed.claim h.wf .vmoData cand)
          (page_start cur ▸ page) page cand.lt_word
        rw [page_start, if_pos rfl] at entered
        rw [page_start]
        exact entered
      | outOfRange _ => cases eq
      | borrowed _ => cases eq
      | exhausted _ _ _ _ _ _ => cases eq
      | panicked _ _ _ _ _ _ => cases eq
    · intro r
      obtain ⟨x, hx, rest⟩ := room r
      refine ⟨(), ?_, rest⟩
      rw [step, hx]
      rfl

/-- Outcome of writing `src` at `cur`: a prefix of it has reached the content, all that fits when
the write returns, and with room for the missing pages it does return. -/
structure Wrote (s : VmoState) (cur : Nat) (src : List UInt8) (written : Nat)
    (out : Outcome VmoState Status Nat) : Prop where
  grown : Extends s out.state
  moved : ∃ k ≤ min src.length (s.vmo.size - cur),
    s.vmo.contents out.state.mm.mem = splice (s.vmo.contents s.mm.mem) cur (src.take k) ∧
      ∀ r t, out = .ok r t → k = min src.length (s.vmo.size - cur) ∧ r = written + k
  total : Room s → ∃ r, out = .ok r out.state ∧ Room out.state

/-- Nothing is left to write. -/
theorem Wrote.done (h : s.Valid) {cur written : Nat} {src : List UInt8}
    (none_left : min src.length (s.vmo.size - cur) = 0) :
    Wrote s cur src written (.ok written s) where
  grown := .refl h
  moved := ⟨0, by omega, by simp, by rintro r t ⟨⟩; omega⟩
  total room := ⟨written, rfl, room⟩

/-- A chunk of `c` bytes has been written before the rest. -/
theorem Wrote.chunk {t : VmoState} {cur written c : Nat} {src : List UInt8}
    {out : Outcome VmoState Status Nat} (grown : Extends s t)
    (first : s.vmo.contents t.mm.mem = splice (s.vmo.contents s.mm.mem) cur (src.take c))
    (room : Room s → Room t) (lt : cur < s.vmo.size) (fit : c ≤ min src.length (s.vmo.size - cur))
    (rest : Wrote t (cur + c) (src.drop c) (written + c) out) : Wrote s cur src written out where
  grown := grown.trans rest.grown
  moved := by
    obtain ⟨k, hk, content, ret⟩ := rest.moved
    rw [grown.size_eq, List.length_drop] at hk ret
    refine ⟨c + k, by omega, ?_, fun r u hr => ?_⟩
    · rw [grown.contents_eq, first] at content
      have len : (src.take c).length = c := by simp; omega
      rw [content, List.take_add]
      nth_rewrite 2 [← len]
      rw [splice_splice]
      simp
      omega
    · have := ret r u hr
      omega
  total r := rest.total (room r)

theorem writeLoop_wrote (buf : List UInt8) (fuel written cur : Nat) (h : s.Valid)
    (enough : buf.length - written ≤ fuel) (le : written ≤ buf.length) :
    Wrote s cur (buf.drop written) written (writeLoop buf fuel written cur s) := by
  induction fuel generalizing s written cur with
  | zero => exact .done h (by simp; omega)
  | succ fuel ih =>
    rw [writeLoop, Prog.bind_apply, Prog.get_apply]
    simp only
    split_ifs with more
    · obtain ⟨grown, same, filled, room⟩ := ensureSlot_spec h more.2
      rw [Prog.bind_apply]
      cases hens : ensureSlot cur s with
      | err e t =>
        rw [hens] at grown same room
        refine ⟨grown, ⟨0, by omega, by simpa using same, by rintro r u ⟨⟩⟩, fun r => ?_⟩
        obtain ⟨_, eq, _⟩ := room r
        cases eq
      | fault t =>
        rw [hens] at grown same room
        refine ⟨grown, ⟨0, by omega, by simpa using same, by rintro r u ⟨⟩⟩, fun r => ?_⟩
        obtain ⟨_, eq, _⟩ := room r
        cases eq
      | ok u t =>
        rw [hens, Outcome.state_ok] at grown same room
        obtain ⟨p, hp⟩ := filled u t hens
        have size_eq := grown.size_eq
        simp only [Prog.bind_apply, Prog.get_apply, hp, Prog.modify_apply, size_eq]
        set c := chunk s.vmo.size buf.length written cur with hc
        have pos := chunk_pos more.1 more.2
        have cle : c ≤ min (buf.length - written) (s.vmo.size - cur) := chunk_le more.2
        have fit := chunk_le_page s.vmo.size buf.length written cur
        rw [← hc] at pos fit
        have taken : ((buf.drop written).take c).length = c := by simp; omega
        have valid := grown.valid
        have page : cur / pageSize < t.vmo.pageCount := valid.backed.page_lt (by omega)
        obtain ⟨grown', stored⟩ := extends_store valid (cur % pageSize)
          ((buf.drop written).take c) page hp (by rw [taken]; exact fit)
        have whole : cur / pageSize * pageSize + cur % pageSize = cur := Nat.div_add_mod' cur _
        rw [whole, grown.contents_eq, same] at stored
        refine Wrote.chunk (grown.trans grown') stored (fun r => ?_) more.2 (by simp; omega) ?_
        · -- storing bytes takes no frame and leaves the slot table alone
          obtain ⟨_, _, room'⟩ := room r
          refine ⟨room'.owner, ?_⟩
          have frames : (t.store (p + cur % pageSize)
              ((buf.drop written).take c)).mm.CanAlloc .vmoData _ :=
            room'.frames.congr ⟨rfl, rfl, rfl, rfl⟩
          have count : t.vmo.missing (t.store (p + cur % pageSize)
              ((buf.drop written).take c)).mm.mem ≤ t.vmo.missing t.mm.mem := by
            refine Finset.card_le_card fun i hi => ?_
            simp only [Finset.mem_filter, Finset.mem_range] at hi ⊢
            refine ⟨hi.1, ?_⟩
            cases old : t.vmo.slot t.mm.mem i with
            | none => rfl
            | some q => rw [grown'.slots i hi.1 q old] at hi; cases hi.2
          exact frames.le count
        · have := ih (s := t.store (p + cur % pageSize) ((buf.drop written).take c))
            (written + c) (cur + c) grown'.valid (by omega) (by omega)
          rwa [← List.drop_drop] at this
    · exact .done h (by simp; omega)

end Write

end Vmo

end CapsuleOS
