import CapsuleOS.Lib.Runs
import CapsuleOS.Memory.PhysRun

/-!
# The cache of freed frames

`free_page` puts every frame into the cache, `reclaim_page` hands one back. A reclaimed frame is not
taken out: it is put in a second time, which is harmless only in a full cache, where the insertion
evicts the very entry that was found. A run is any sequence of calls after boot, allocations included;
the log notes which frames were freed and which were reclaimed.
-/
namespace CapsuleOS

open Lib

namespace PageCache

/-- The entry that `find_evictable` points to. -/
def evictable? (c : PageCache) : Option PageCacheEntry := c.findEvictable.bind c.entries.at?

def markDirty (c : PageCache) (pa : Nat) : PageCache :=
  { c with entries := c.entries.modify (·.pa == pa) fun e => { e with dirty := true } }

def tick (c : PageCache) : PageCache :=
  { c with entries := c.entries.map fun e => { e with age := wadd e.age 1 } }

/-- The dirty entries are counted and cleaned. -/
def sync (c : PageCache) : Nat × PageCache :=
  (c.entries.occupants.countP (·.dirty),
    { c with entries := c.entries.map fun e => { e with dirty := false } })

def drain (c : PageCache) : Nat × PageCache :=
  (c.entries.occupants.length, { entries := Slots.empty, count := 0 })

/-- The frames in the cache, in the order of the cells. -/
def frames (c : PageCache) : List Nat := c.entries.occupants.map fun e => paToPfn e.pa

/-- The counter tells the number of occupied cells. -/
def Counted (c : PageCache) : Prop := c.count = c.entries.occupants.length

end PageCache

def reclaimPage : MmM (Option Nat) := fun mm =>
  match mm.pageCache.evictable? with
  | some e => .ok (some e.pa) { mm with pageCache := mm.pageCache.addPage e.pa false }
  | none => .ok none mm

/-! ## What the operations do to the frames -/

namespace PageCache

variable {c : PageCache}

theorem oldestClean_occupied {cs : List (Option PageCacheEntry)} {i : Nat} {idx : Option Nat}
    {age j : Nat} (h : oldestClean cs i idx age = some j) :
    idx = some j ∨ ∃ k e, j = i + k ∧ cs[k]? = some (some e) := by
  induction cs generalizing i idx age with
  | nil => exact Or.inl h
  | cons cell cs ih =>
    have later : (∃ k e, j = i + 1 + k ∧ cs[k]? = some (some e)) →
        ∃ k e, j = i + k ∧ (cell :: cs)[k]? = some (some e) := by
      rintro ⟨k, e, rfl, here⟩
      exact ⟨k + 1, e, by omega, here⟩
    cases cell with
    | none => exact (ih h).imp_right later
    | some e =>
      simp only [oldestClean] at h
      split_ifs at h
      · rcases ih h with found | rest
        · cases found
          exact Or.inr ⟨0, e, rfl, rfl⟩
        · exact Or.inr (later rest)
      · exact (ih h).imp_right later

theorem findEvictable_occupied {idx : Nat} (h : c.findEvictable = some idx) :
    ∃ e, c.entries.at? idx = some e := by
  unfold findEvictable at h
  split at h
  · rename_i found
    cases h
    rcases oldestClean_occupied found with absent | ⟨k, e, rfl, here⟩
    · cases absent
    · exact ⟨e, Slots.at?_eq_some.mpr (by simpa using here)⟩
  · obtain ⟨lt, holds, _⟩ := List.findIdx?_eq_some_iff_getElem.mp h
    cases here : c.entries.cells[idx] with
    | none => simp [here] at holds
    | some e => exact ⟨e, Slots.at?_eq_some.mpr (by rw [List.getElem?_eq_getElem lt, here])⟩

theorem evictable?_eq_none (h : c.evictable? = none) : c.findEvictable = none := by
  rw [evictable?, Option.bind_eq_none_iff] at h
  by_contra found
  obtain ⟨idx, found⟩ := Option.ne_none_iff_exists'.mp found
  obtain ⟨e, here⟩ := findEvictable_occupied found
  rw [h idx found] at here
  cases here

/-- The evictable entry is in the cache, and evicting its cell leaves the others. -/
theorem evictable?_eq_some {e : PageCacheEntry} (h : c.evictable? = some e) :
    ∃ idx, c.findEvictable = some idx ∧
      c.entries.occupants.Perm (e :: (c.evict idx).entries.occupants) := by
  obtain ⟨idx, found, here⟩ := Option.bind_eq_some_iff.mp h
  exact ⟨idx, found, Cells.occupants_set_none (Slots.at?_eq_some.mp here)⟩

theorem evictable?_mem {e : PageCacheEntry} (h : c.evictable? = some e) :
    e ∈ c.entries.occupants := by
  obtain ⟨idx, _, perm⟩ := evictable?_eq_some h
  exact perm.mem_iff.mpr List.mem_cons_self

/-- The three ways an insertion ends: into an empty cell, in place of the evictable entry, or not at
all. -/
inductive AddResult (c : PageCache) (e : PageCacheEntry) : PageCache → Prop where
  | room {c' : PageCache} (room : c.count < 64) (counted : c'.Counted)
      (perm : c'.entries.occupants.Perm (e :: c.entries.occupants)) : AddResult c e c'
  | replaced {c' : PageCache} (full : 64 ≤ c.count) (old : PageCacheEntry) (rest : List PageCacheEntry)
      (found : c.evictable? = some old) (counted : c'.Counted)
      (perm : c.entries.occupants.Perm (old :: rest))
      (perm' : c'.entries.occupants.Perm (e :: rest)) : AddResult c e c'
  | refused (full : 64 ≤ c.count) (none_found : c.evictable? = none) : AddResult c e c

theorem counted_insert {e : PageCacheEntry} {entries : Slots PageCacheEntry 64} (h : c.Counted)
    (put : c.entries.insert? e = some entries) : Counted ⟨entries, c.count + 1⟩ := by
  rw [Counted, (Slots.insert?_perm put).length_eq, List.length_cons, h]

theorem addPage_result (h : c.Counted) (pa : Nat) (dirty : Bool) :
    AddResult c { pa, age := 0, dirty } (c.addPage pa dirty) := by
  unfold Counted at h
  have bound := c.entries.occupants_length_le
  by_cases full : 64 ≤ c.count
  · cases found : c.evictable? with
    | none =>
      have refuses : c.entries.insert? { pa, age := 0, dirty } = none := by
        rw [Slots.insert?_eq_none, Slots.Full]
        omega
      have eq : c.addPage pa dirty = c := by
        simp [addPage, full, evictable?_eq_none found, refuses]
      rw [eq]
      exact .refused full found
    | some old =>
      obtain ⟨idx, at_idx, perm⟩ := evictable?_eq_some found
      have evicted : (c.evict idx).Counted := by
        have := perm.length_eq
        rw [List.length_cons] at this
        change wsub c.count 1 = (c.evict idx).entries.occupants.length
        rw [wsub_eq (by omega) (by omega)]
        omega
      have room : (c.evict idx).entries.occupants.length < 64 := by
        have := perm.length_eq
        rw [List.length_cons] at this
        omega
      cases put : (c.evict idx).entries.insert? { pa, age := 0, dirty } with
      | none =>
        have := Slots.insert?_eq_none.mp put
        unfold Slots.Full at this
        omega
      | some entries =>
        have eq : c.addPage pa dirty = ⟨entries, (c.evict idx).count + 1⟩ := by
          simp [addPage, full, at_idx, put]
        rw [eq]
        exact .replaced full old _ found (counted_insert evicted put) perm (Slots.insert?_perm put)
  · cases put : c.entries.insert? { pa, age := 0, dirty } with
    | none =>
      have := Slots.insert?_eq_none.mp put
      unfold Slots.Full at this
      omega
    | some entries =>
      have eq : c.addPage pa dirty = ⟨entries, c.count + 1⟩ := by simp [addPage, full, put]
      rw [eq]
      exact .room (by omega) (counted_insert h put) (Slots.insert?_perm put)

/-- Cleaning, aging and marking change no frame. -/
theorem frames_map {f : PageCacheEntry → PageCacheEntry} (keeps : ∀ e, (f e).pa = e.pa) :
    frames { c with entries := c.entries.map f } = c.frames := by
  rw [frames, Slots.map_occupants, List.map_map]
  refine List.map_congr_left fun e _ => ?_
  rw [Function.comp_apply, keeps]

theorem frames_tick (c : PageCache) : c.tick.frames = c.frames :=
  frames_map (f := fun e => { e with age := wadd e.age 1 }) fun _ => rfl

theorem frames_sync (c : PageCache) : c.sync.2.frames = c.frames :=
  frames_map (f := fun e => { e with dirty := false }) fun _ => rfl

theorem frames_markDirty (c : PageCache) (pa : Nat) : (c.markDirty pa).frames = c.frames := by
  unfold frames markDirty
  rcases c.entries.modify_occupants (·.pa == pa) fun e => { e with dirty := true } with
    ⟨_, same⟩ | ⟨l, e, r, before, _, _, after⟩
  · rw [same]
  · rw [after, before]
    simp

theorem Counted.of_frames {c' : PageCache} (h : c.Counted) (count : c'.count = c.count)
    (same : c'.frames = c.frames) : c'.Counted := by
  have lengths := congrArg List.length same
  simp only [frames, List.length_map] at lengths
  rw [Counted, count, h, lengths]

end PageCache

/-! ## Runs -/

inductive CacheEvent where
  | freed (pfn : Nat)
  | reclaimed (pfn : Nat)

/-- The memory manager, and two things that are not in the source: which of the frames in the cache have an
entry that `reclaim_page` wrote, and a log of the frames that were freed and reclaimed, oldest first. -/
structure Ledger where
  mm : Mm
  putBack : List Nat
  log : List CacheEvent

inductive CacheOp where
  | alloc (tag : PageTag)
  | free (pa : Nat)
  | reclaim
  | markDirty (pa : Nat)
  | tick
  | sync
  | drain

namespace Ledger

def note (s : Ledger) (e : CacheEvent) : Ledger := { s with log := s.log ++ [e] }

/-- Of the frames that are in the cache now, those with `back` have an entry of `reclaim_page`. -/
def mark (s : Ledger) (back : Nat → Bool) : Ledger :=
  { s with putBack := s.mm.pageCache.frames.filter back }

/-- `free_page` has written the entry of a frame. -/
def freed (s : Ledger) (pfn : Nat) : Ledger :=
  (s.mark fun f => f ≠ pfn ∧ f ∈ s.putBack).note (.freed pfn)

/-- `reclaim_page` has written the entry of a frame. -/
def reclaimed (s : Ledger) (pfn : Nat) : Ledger :=
  (s.mark fun f => f = pfn ∨ f ∈ s.putBack).note (.reclaimed pfn)

def onMm {α : Type} (m : MmM α) : Prog Ledger Status α := Prog.zoom mm (fun mm s => { s with mm }) m

def onCache (f : PageCache → PageCache) : Prog Ledger Status Unit :=
  onMm (Prog.modify fun mm => { mm with pageCache := f mm.pageCache })

end Ledger

/-- Calls of the allocator and of the cache, one at a time. -/
def cacheCalls : Stepper Ledger Status CacheOp where
  exec
    | .alloc tag => Ledger.onMm (allocPage tag) >>= fun _ => pure ()
    | .free pa => Ledger.onMm (freePage pa) >>= fun _ => Prog.modify (·.freed (paToPfn pa))
    | .reclaim => Ledger.onMm reclaimPage >>= fun r =>
        Prog.modify fun s => (r.map fun pa => s.reclaimed (paToPfn pa)).getD s
    | .markDirty pa => Ledger.onCache (·.markDirty pa)
    | .tick => Ledger.onCache (·.tick)
    | .sync => Ledger.onCache (·.sync.2)
    | .drain => Ledger.onCache (·.drain.2)
  Enabled _ _ := True

/-- Between two times that a frame is reclaimed it is freed. -/
def NoRepeat (log : List CacheEvent) : Prop :=
  ∀ (f i j : Nat), i < j → log[i]? = some (CacheEvent.reclaimed f) →
    log[j]? = some (CacheEvent.reclaimed f) →
    ∃ k, i < k ∧ k < j ∧ log[k]? = some (CacheEvent.freed f)

/-- The frame has been reclaimed and not freed since. -/
def Returned (log : List CacheEvent) (f : Nat) : Prop :=
  ∃ i : Nat, log[i]? = some (CacheEvent.reclaimed f) ∧
    ∀ k : Nat, i < k → log[k]? ≠ some (CacheEvent.freed f)

/-- The cache holds each frame once and counts its entries, and reclaims no frame twice. -/
structure Ledger.Sound (s : Ledger) : Prop where
  once : s.mm.pageCache.frames.Nodup
  counted : s.mm.pageCache.Counted
  noRepeat : NoRepeat s.log

/-- A page is reclaimed only when there is no entry to evict, or when the cache is full and that entry was
written by `free_page`. -/
def Ledger.Allows (s : Ledger) : CacheOp → Prop
  | .reclaim => ∀ e, s.mm.pageCache.evictable? = some e →
      64 ≤ s.mm.pageCache.count ∧ paToPfn e.pa ∉ s.putBack
  | _ => True

variable {log : List CacheEvent} {f : Nat}

theorem NoRepeat.freed (h : NoRepeat log) (f : Nat) : NoRepeat (log ++ [.freed f]) := by
  intro g i j lt first second
  obtain ⟨k, lt, lt', mid⟩ := h g i j lt (by grind) (by grind)
  exact ⟨k, lt, lt', by grind⟩

theorem returned_freed {g : Nat} : Returned (log ++ [.freed g]) f ↔ f ≠ g ∧ Returned log f := by
  constructor
  · rintro ⟨i, first, unfreed⟩
    have inside : i < log.length := by grind
    refine ⟨fun same => unfreed log.length inside (by grind), i, by grind, fun k later freed => ?_⟩
    exact unfreed k later (by grind)
  · rintro ⟨ne, i, first, unfreed⟩
    refine ⟨i, by grind, fun k later freed => ?_⟩
    by_cases old : k < log.length
    · exact unfreed k later (by grind)
    · exact ne (by grind)

theorem returned_reclaimed {g : Nat} : Returned (log ++ [.reclaimed g]) f ↔ f = g ∨ Returned log f := by
  constructor
  · rintro ⟨i, first, unfreed⟩
    by_cases old : i < log.length
    · exact .inr ⟨i, by grind, fun k later freed => unfreed k later (by grind)⟩
    · exact .inl (by grind)
  · rintro (rfl | ⟨i, first, unfreed⟩)
    · exact ⟨log.length, by grind, fun k later => by grind⟩
    · refine ⟨i, by grind, fun k later freed => ?_⟩
      by_cases old : k < log.length
      · exact unfreed k later (by grind)
      · grind

theorem noRepeat_reclaimed_iff :
    NoRepeat (log ++ [.reclaimed f]) ↔ NoRepeat log ∧ ¬ Returned log f := by
  constructor
  · intro h
    refine ⟨?_, ?_⟩
    · intro g i j lt first second
      obtain ⟨k, lt, lt', mid⟩ := h g i j lt (by grind) (by grind)
      exact ⟨k, lt, lt', by grind⟩
    · rintro ⟨i, first, unfreed⟩
      obtain ⟨k, lt, lt', freed⟩ := h f i log.length (by grind) (by grind) (by grind)
      exact unfreed k lt (by grind)
  · rintro ⟨h, fresh⟩ g i j lt first second
    by_cases old : j < log.length
    · obtain ⟨k, lt, lt', mid⟩ := h g i j lt (by grind) (by grind)
      exact ⟨k, lt, lt', by grind⟩
    · -- the second one is the last event
      have last : j = log.length ∧ g = f := by grind
      obtain ⟨rfl, rfl⟩ := last
      by_contra never
      exact fresh ⟨i, by grind, fun k lt freed => never ⟨k, lt, by grind, by grind⟩⟩

/-! ### What a run keeps -/

/-- Frames in use and frames in the cache lie below the cursor, and those in the cache are free. -/
structure Mm.Caches (mm : Mm) : Prop extends mm.UsedBelow where
  cached : ∀ pfn ∈ mm.pageCache.frames,
    mm.pageTags pfn = .free ∧ ramBase + 4096 * pfn < mm.nextFreePage

theorem Mm.Booted.caches {mm : Mm} (h : mm.Booted) : mm.Caches where
  toUsedBelow := h.usedBelow
  cached pfn mem := by simp [h.cache, PageCache.frames] at mem

theorem Mm.Booted.sound {mm : Mm} (h : mm.Booted) : Ledger.Sound ⟨mm, [], []⟩ where
  once := by simp [h.cache, PageCache.frames]
  counted := by simp [h.cache, PageCache.Counted]
  noRepeat := by
    intro f i j _ first
    cases first

namespace Mm.Caches

variable {mm : Mm}

theorem skipTo (h : mm.Caches) {n : Nat} (ge : mm.nextFreePage ≤ n)
    (grid : 4096 ∣ n - mm.nextFreePage) : (mm.skipTo n).Caches where
  toUsedBelow := h.toUsedBelow.skipTo ge grid
  cached pfn mem := ⟨(h.cached pfn mem).1, (h.cached pfn mem).2.trans_le ge⟩

/-- The frame that is handed out lies at or above the cursor, so it is not in the cache. -/
theorem claim (h : mm.Caches) {pa : Nat} (cand : mm.Candidate pa) (tag : PageTag) :
    (mm.claim tag pa).Caches where
  toUsedBelow := h.toUsedBelow.claim cand tag
  cached q mem := by
    have ge := cand.ge_cursor
    have start := cand.pfn_start h.wf
    have old := h.cached q mem
    have ne : q ≠ paToPfn pa := by
      rintro rfl
      omega
    simp only [Mm.claim, Mm.setTag, if_neg ne]
    exact ⟨old.1, by omega⟩

theorem setCache (h : mm.Caches) {c : PageCache} (sub : c.frames ⊆ mm.pageCache.frames) :
    Caches { mm with pageCache := c } where
  wf := ⟨h.wf.end_lt, h.wf.aligned⟩
  below := h.below
  cached pfn mem := h.cached pfn (sub mem)

end Mm.Caches

/-! ### Steps -/

theorem freePage_used {mm mm' : Mm} {pa : Nat} (ok : freePage pa mm = .ok () mm') :
    mm.tag pa ≠ .free := by
  unfold freePage at ok
  split_ifs at ok with _ free
  exact free

theorem freePage_noErr (pa : Nat) : Prog.NoErr (freePage pa) := by
  intro mm e mm' err
  unfold freePage at err
  split_ifs at err

/-- The invariant of a run. A frame in the cache has been reclaimed and not freed since exactly if its entry
was written by `reclaim_page`. -/
structure Ledger.Keeps (s : Ledger) : Prop extends s.Sound where
  caches : s.mm.Caches
  marks : ∀ f ∈ s.mm.pageCache.frames, f ∈ s.putBack ↔ Returned s.log f

namespace Ledger

variable {s s' : Ledger}

/-- The state after each operation. -/
inductive Moves (s : Ledger) : CacheOp → Ledger → Prop where
  | alloc (tag : PageTag) (pa : Nat) (cand : s.mm.Candidate pa) :
      Moves s (.alloc tag) { s with mm := s.mm.claim tag pa }
  | exhausted (tag : PageTag) (n : Nat) (ge : s.mm.nextFreePage ≤ n)
      (grid : 4096 ∣ n - s.mm.nextFreePage) : Moves s (.alloc tag) { s with mm := s.mm.skipTo n }
  | free (pa : Nat) (used : s.mm.tag pa ≠ .free) :
      Moves s (.free pa) (freed { s with mm := s.mm.release pa } (paToPfn pa))
  | reclaim (e : PageCacheEntry) (found : s.mm.pageCache.evictable? = some e) :
      Moves s .reclaim
        (reclaimed { s with mm := { s.mm with pageCache := s.mm.pageCache.addPage e.pa false } }
          (paToPfn e.pa))
  | nothing (none_found : s.mm.pageCache.evictable? = none) : Moves s .reclaim s
  | cache (op : CacheOp) (c : PageCache) (other : op ≠ .reclaim)
      (frames : c.frames = s.mm.pageCache.frames ∨ c.frames = [])
      (counted : s.mm.pageCache.Counted → c.Counted) :
      Moves s op { s with mm := { s.mm with pageCache := c } }

theorem moves_onCache {op : CacheOp} {f : PageCache → PageCache} (other : op ≠ .reclaim)
    (frames : ∀ c, (f c).frames = c.frames ∨ (f c).frames = [])
    (counted : ∀ c, c.Counted → (f c).Counted) (ran : (onCache f s).Ends s') : Moves s op s' := by
  unfold onCache onMm at ran
  obtain ⟨mm, ends, rfl⟩ := Prog.zoom_ends ran
  cases ends
  exact .cache op (f s.mm.pageCache) other (frames _) (counted _)

theorem moves_of_steps {op : CacheOp} (wf : s.mm.WF) (step : cacheCalls.Steps op s s') :
    Moves s op s' := by
  have ran := step.ran
  cases op with
  | alloc tag =>
    obtain ⟨mm, ends, rfl⟩ := Prog.zoom_ends (Prog.map_ends ran)
    have result := allocPage_result tag s.mm wf.end_lt
    generalize allocPage tag s.mm = out at result ends
    cases result with
    | taken pa cand =>
      cases ends
      exact .alloc tag pa cand
    | exhausted n ge grid =>
      cases ends
      exact .exhausted tag n ge grid
    | panicked n ge grid => cases ends
  | free pa =>
    cases freed : freePage pa s.mm with
    | ok u mm =>
      have run : cacheCalls.exec (.free pa) s = .ok () (Ledger.freed { s with mm } (paToPfn pa)) :=
        Prog.bind_ok (Prog.zoom_ok freed)
      rw [run, freePage_ok freed] at ran
      cases ran
      exact .free pa (freePage_used freed)
    | err e mm => exact absurd freed (freePage_noErr pa s.mm e mm)
    | fault mm =>
      have run : cacheCalls.exec (.free pa) s = .fault { s with mm } :=
        Prog.bind_fault (Prog.zoom_fault freed)
      rw [run] at ran
      cases ran
  | reclaim =>
    cases found : s.mm.pageCache.evictable? with
    | none =>
      have run : cacheCalls.exec .reclaim s = .ok () s := by
        simp [cacheCalls, onMm, Prog.bind_apply, Prog.zoom, reclaimPage, found]
      rw [run] at ran
      cases ran
      exact .nothing found
    | some e =>
      have run : cacheCalls.exec .reclaim s = .ok ()
          (reclaimed { s with mm := { s.mm with pageCache := s.mm.pageCache.addPage e.pa false } }
            (paToPfn e.pa)) := by
        simp [cacheCalls, onMm, Prog.bind_apply, Prog.zoom, reclaimPage, found]
      rw [run] at ran
      cases ran
      exact .reclaim e found
  | markDirty pa =>
    refine moves_onCache (f := (·.markDirty pa)) (by simp) (fun c => Or.inl (c.frames_markDirty pa))
      (fun c h => ?_) ran
    exact h.of_frames rfl (c.frames_markDirty pa)
  | tick =>
    refine moves_onCache (f := (·.tick)) (by simp) (fun c => Or.inl c.frames_tick)
      (fun c h => ?_) ran
    exact h.of_frames rfl c.frames_tick
  | sync =>
    refine moves_onCache (f := (·.sync.2)) (by simp) (fun c => Or.inl c.frames_sync)
      (fun c h => ?_) ran
    exact h.of_frames rfl c.frames_sync
  | drain => exact moves_onCache (f := (·.drain.2)) (by simp) (fun c => Or.inr rfl) (fun c h => rfl) ran

theorem frames_perm {c : PageCache} {es : List PageCacheEntry} (perm : c.entries.occupants.Perm es) :
    c.frames.Perm (es.map fun e => paToPfn e.pa) := perm.map _

theorem addPage_frames {c : PageCache} (counted : c.Counted) (pa : Nat) (dirty : Bool) :
    (c.addPage pa dirty).frames ⊆ paToPfn pa :: c.frames := by
  have result := c.addPage_result counted pa dirty
  generalize c.addPage pa dirty = c' at result
  cases result with
  | room _ _ perm =>
    intro f mem
    exact (frames_perm perm).mem_iff.mp mem
  | replaced _ old rest _ _ perm perm' =>
    intro f mem
    have placed := (frames_perm perm').mem_iff.mp mem
    have held := (frames_perm perm).mem_iff (a := f)
    simp only [List.map_cons, List.mem_cons] at placed held ⊢
    exact placed.imp_right fun kept => held.mpr (Or.inr kept)
  | refused => exact fun f mem => List.mem_cons_of_mem _ mem

theorem Moves.caches {op : CacheOp} (h : Moves s op s') (inv : s.Keeps) : s'.mm.Caches := by
  have caches := inv.caches
  cases h with
  | alloc tag pa cand => exact caches.claim cand tag
  | exhausted tag n ge grid => exact caches.skipTo ge grid
  | free pa used =>
    have below := caches.below _ used
    refine ⟨caches.toUsedBelow.release pa, fun q mem => ?_⟩
    have placed : q ∈ paToPfn pa :: s.mm.pageCache.frames :=
      addPage_frames inv.counted pa false mem
    simp only [freed, mark, note, Mm.release, Mm.setTag]
    rcases List.mem_cons.mp placed with rfl | old
    · exact ⟨if_pos rfl, below⟩
    · have := caches.cached q old
      exact ⟨by split_ifs <;> simp [this.1], this.2⟩
  | reclaim e found =>
    refine caches.setCache fun q mem => ?_
    rcases List.mem_cons.mp (addPage_frames inv.counted e.pa false mem) with rfl | old
    · exact List.mem_map_of_mem (PageCache.evictable?_mem found)
    · exact old
  | nothing => exact caches
  | cache op c other frames =>
    refine caches.setCache ?_
    rcases frames with same | empty
    · rw [same]
      exact List.Subset.refl _
    · rw [empty]
      exact List.nil_subset _

/-- Only a frame of the call gets another mark. -/
theorem Moves.marks {op : CacheOp} (h : Moves s op s') (inv : s.Keeps) :
    ∀ f ∈ s'.mm.pageCache.frames, f ∈ s'.putBack ↔ Returned s'.log f := by
  have marks := inv.marks
  cases h with
  | alloc tag pa cand => exact marks
  | exhausted tag n ge grid => exact marks
  | free pa used =>
    intro f held
    have mem : f ∈ (s.mm.release pa).pageCache.frames := held
    have placed := addPage_frames inv.counted pa false mem
    have marked : f ∈ (freed { s with mm := s.mm.release pa } (paToPfn pa)).putBack ↔
        f ≠ paToPfn pa ∧ f ∈ s.putBack := by
      simp only [freed, mark, note, List.mem_filter, mem, true_and, decide_eq_true_eq]
    rw [marked]
    refine Iff.trans ?_ returned_freed.symm
    exact and_congr_right fun ne => marks f ((List.mem_cons.mp placed).resolve_left ne)
  | reclaim e found =>
    intro f held
    have mem : f ∈ (s.mm.pageCache.addPage e.pa false).frames := held
    have placed := addPage_frames inv.counted e.pa false mem
    have marked : f ∈ (reclaimed { s with mm := { s.mm with
          pageCache := s.mm.pageCache.addPage e.pa false } } (paToPfn e.pa)).putBack ↔
        f = paToPfn e.pa ∨ f ∈ s.putBack := by
      simp only [reclaimed, mark, note, List.mem_filter, mem, true_and, decide_eq_true_eq]
    rw [marked]
    refine Iff.trans ?_ returned_reclaimed.symm
    by_cases same : f = paToPfn e.pa
    · exact iff_of_true (.inl same) (.inl same)
    · exact or_congr_right (marks f ((List.mem_cons.mp placed).resolve_left same))
  | nothing => exact marks
  | cache op c other frames =>
    intro f mem
    rcases frames with same | empty
    · exact marks f (same ▸ mem)
    · rw [empty] at mem
      cases mem

/-- An insertion of a frame that the cache does not hold keeps the frames apart. -/
theorem addPage_nodup {c : PageCache} (counted : c.Counted) {pa : Nat} (dirty : Bool)
    (nodup : c.frames.Nodup) (fresh : paToPfn pa ∉ c.frames) :
    (c.addPage pa dirty).frames.Nodup ∧ (c.addPage pa dirty).Counted := by
  have result := c.addPage_result counted pa dirty
  generalize c.addPage pa dirty = c' at result
  cases result with
  | room _ counted' perm =>
    exact ⟨(frames_perm perm).nodup_iff.mpr (List.nodup_cons.mpr ⟨fresh, nodup⟩), counted'⟩
  | replaced _ old rest _ counted' perm perm' =>
    have old_nodup := (frames_perm perm).nodup_iff.mp nodup
    have held := (frames_perm perm).mem_iff (a := paToPfn pa)
    rw [List.map_cons, List.nodup_cons] at old_nodup
    rw [List.map_cons, List.mem_cons] at held
    refine ⟨(frames_perm perm').nodup_iff.mpr ?_, counted'⟩
    exact List.nodup_cons.mpr ⟨fun mem => fresh (held.mpr (Or.inr mem)), old_nodup.2⟩
  | refused => exact ⟨nodup, counted⟩

/-- Reclaiming keeps the cache sound exactly when the cache is full: else the frame is in it twice. -/
theorem addPage_reclaimed {c : PageCache} (counted : c.Counted) (nodup : c.frames.Nodup)
    {e : PageCacheEntry} (found : c.evictable? = some e) :
    ((c.addPage e.pa false).frames.Nodup ↔ 64 ≤ c.count) ∧ (c.addPage e.pa false).Counted := by
  have result := c.addPage_result counted e.pa false
  generalize c.addPage e.pa false = c' at result
  cases result with
  | room room counted' perm =>
    have mem : paToPfn e.pa ∈ c.frames := List.mem_map_of_mem (PageCache.evictable?_mem found)
    refine ⟨iff_of_false (fun twice => ?_) (by omega), counted'⟩
    exact (List.nodup_cons.mp ((frames_perm perm).nodup_iff.mp twice)).1 mem
  | replaced full old rest found' counted' perm perm' =>
    rw [found] at found'
    cases found'
    refine ⟨iff_of_true ?_ full, counted'⟩
    exact (frames_perm perm').nodup_iff.mpr ((frames_perm perm).nodup_iff.mp nodup)
  | refused _ none_found =>
    rw [found] at none_found
    cases none_found

/-- One call keeps the cache sound exactly when it is not a reclaim that the condition excludes. -/
theorem Moves.stays_sound_iff {op : CacheOp} (h : Moves s op s') (inv : s.Keeps) :
    s'.Sound ↔ s.Allows op := by
  have sound := inv.toSound
  cases h with
  | alloc tag pa cand => exact iff_of_true ⟨sound.once, sound.counted, sound.noRepeat⟩ trivial
  | exhausted tag n ge grid => exact iff_of_true ⟨sound.once, sound.counted, sound.noRepeat⟩ trivial
  | free pa used =>
    have fresh : paToPfn pa ∉ s.mm.pageCache.frames := fun mem => used (inv.caches.cached _ mem).1
    have added := addPage_nodup sound.counted false sound.once fresh
    exact iff_of_true ⟨added.1, added.2, sound.noRepeat.freed _⟩ trivial
  | reclaim e found =>
    have added := addPage_reclaimed sound.counted sound.once found
    have marked := inv.marks _ (List.mem_map_of_mem (PageCache.evictable?_mem found))
    constructor
    · rintro after e' found'
      rw [found] at found'
      cases found'
      exact ⟨added.1.mp after.once, fun back => (noRepeat_reclaimed_iff.mp after.noRepeat).2 (marked.mp back)⟩
    · intro allowed
      obtain ⟨full, fresh⟩ := allowed e found
      exact ⟨added.1.mpr full, added.2, noRepeat_reclaimed_iff.mpr ⟨sound.noRepeat, mt marked.mpr fresh⟩⟩
  | nothing none_found =>
    refine iff_of_true sound fun e found => ?_
    rw [none_found] at found
    cases found
  | cache op c other frames counted =>
    have allowed : s.Allows op := by
      cases op with
      | reclaim => exact absurd rfl other
      | _ => trivial
    refine iff_of_true ⟨?_, counted sound.counted, sound.noRepeat⟩ allowed
    rcases frames with same | empty
    · exact same ▸ sound.once
    · exact empty ▸ List.nodup_nil

theorem Keeps.step (inv : s.Keeps) {op : CacheOp} (allowed : s.Allows op)
    (step : cacheCalls.Steps op s s') : s'.Keeps :=
  have moves := moves_of_steps inv.caches.wf step
  ⟨(moves.stays_sound_iff inv).mpr allowed, moves.caches inv, moves.marks inv⟩

end Ledger

theorem Mm.Booted.keeps {mm : Mm} (h : mm.Booted) : Ledger.Keeps ⟨mm, [], []⟩ where
  toSound := h.sound
  caches := h.caches
  marks f mem := by simp [h.cache, PageCache.frames] at mem

/-- There are `k` entries, and one of them is clean and has just been entered. -/
structure PageCache.Young (c : PageCache) (k : Nat) : Prop where
  count : c.count = k
  entry : 0 < k → ∃ e ∈ c.entries.occupants, e.age = 0 ∧ e.dirty = false

theorem PageCache.Young.addPage {c : PageCache} {k : Nat} (h : c.Young k) (counted : c.Counted) (few : k < 64)
    (pa : Nat) : (c.addPage pa false).Young (k + 1) := by
  have count := h.count
  have added := c.addPage_result counted pa false
  generalize c.addPage pa false = c' at added
  cases added with
  | room _ counted' perm =>
    unfold PageCache.Counted at counted counted'
    refine ⟨by rw [counted', perm.length_eq, List.length_cons, ← counted, count], fun _ => ?_⟩
    exact ⟨_, perm.mem_iff.mpr List.mem_cons_self, rfl, rfl⟩
  | replaced full => omega
  | refused full => omega

end CapsuleOS
