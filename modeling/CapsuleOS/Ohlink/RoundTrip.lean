import CapsuleOS.Ohlink.Builder
import CapsuleOS.Ohlink.Parser

/-!
# Built images are parsed back

`Laid` describes where the builder puts the payloads. The first half shows that it lays them out like
that as long as the image is smaller than `2 ^ 64` bytes, the second that the parser finds them there. The
builder adds the alignment to the offset before it takes one off again: in a development build that panics
where the sum is no 64-bit number, also if the offset that it computes is one (`build_parses_iff`).
-/
namespace CapsuleOS.Ohlink

open Lib

/-! ## Alignment -/

/-- The next offset that the alignment allows, without a bound. For a power of two it is a multiple of
it, and otherwise still not before `current`. -/
def alignUp (current alignment : Nat) : Nat :=
  current + (alignment - 1) - ((current + (alignment - 1)) &&& (alignment - 1))

theorem le_alignUp (current alignment : Nat) : current ≤ alignUp current alignment := by
  have masked : (current + (alignment - 1)) &&& (alignment - 1) ≤ alignment - 1 := Nat.and_le_right
  unfold alignUp
  omega

/-- If the result is a 64-bit number, so is the sum before masking. -/
theorem sum_lt_of_alignUp_lt {current alignment : Nat} (small : alignment ≤ 2 ^ 64)
    (fits : alignUp current alignment < 2 ^ 64) : current + (alignment - 1) < 2 ^ 64 := by
  unfold alignUp at fits
  generalize sum_eq : current + (alignment - 1) = sum at fits ⊢
  by_contra large
  -- the mask has no bit 64, so it cannot take this bit away
  have masked : sum &&& (alignment - 1) ≤ sum % 2 ^ 64 := by
    have bound : sum &&& (alignment - 1) < 2 ^ 64 := Nat.and_le_right.trans_lt (by omega)
    rw [← Nat.mod_eq_of_lt bound, Nat.and_mod_two_pow]
    exact Nat.and_le_left
  omega

theorem and_not_toNat (x m : BitVec 64) : (x &&& ~~~m).toNat = x.toNat - (x.toNat &&& m.toNat) := by
  have apart : (x &&& m) &&& (x &&& ~~~m) = 0#64 := by
    ext i
    simp only [BitVec.getElem_and, BitVec.getElem_not, BitVec.getElem_zero]
    cases x[i] <;> cases m[i] <;> rfl
  have joined : (x &&& m) + (x &&& ~~~m) = x := by
    rw [BitVec.add_eq_or_of_and_eq_zero _ _ apart]
    ext i
    simp only [BitVec.getElem_and, BitVec.getElem_or, BitVec.getElem_not]
    cases x[i] <;> cases m[i] <;> rfl
  have sum := BitVec.toNat_add_of_and_eq_zero apart
  rw [joined, BitVec.toNat_and] at sum
  omega

/-- Where the sum overflows, a release build takes the one off again from what is left. -/
theorem alignedOffset_eq {profile : Profile} {current alignment : Nat} (pos : 0 < alignment)
    (small : alignment < 2 ^ 64) (fits : alignUp current alignment < 2 ^ 64)
    (sums : profile = .release ∨ current + alignment < 2 ^ 64) :
    Builder.alignedOffset profile current alignment = some (alignUp current alignment) := by
  have sum := sum_lt_of_alignUp_lt small.le fits
  have top : (profile.add current alignment).bind (profile.sub · 1) = some (current + (alignment - 1)) := by
    by_cases room : current + alignment < 2 ^ 64
    · simp only [Profile.add, room, if_true, Option.bind_some, Profile.sub]
      rw [if_pos (by omega)]
      congr 1
      omega
    · -- the sum can only overflow by the one that is taken off again
      obtain rfl := sums.resolve_right room
      have full : (current + alignment) % 2 ^ 64 = 0 := by omega
      simp only [Profile.add, room, if_false, Profile.overflowed, full, Option.bind_some, Profile.sub]
      rw [if_neg (by decide)]
      congr 1
      omega
  have mask : profile.sub alignment 1 = some (alignment - 1) := if_pos pos
  have reduced : Builder.alignedOffset profile current alignment =
      ((profile.add current alignment).bind (profile.sub · 1)).bind fun top =>
        (profile.sub alignment 1).bind fun mask =>
          some (BitVec.ofNat 64 top &&& ~~~BitVec.ofNat 64 mask).toNat := by
    rw [Option.bind_assoc]
    rfl
  rw [reduced, top, Option.bind_some, mask, Option.bind_some, and_not_toNat, BitVec.toNat_ofNat,
    BitVec.toNat_ofNat, Nat.mod_eq_of_lt sum, Nat.mod_eq_of_lt (by omega : alignment - 1 < 2 ^ 64)]
  rfl

/-! ## Placing the payloads -/

namespace Segment

/-- The alignment in use. -/
def align (g : Segment) : Nat := Builder.alignmentOf g.entry

theorem align_pos (g : Segment) : 0 < g.align := by
  unfold align Builder.alignmentOf
  split_ifs with pos
  · exact pos
  · decide

theorem align_lt (g : Segment) : g.align < 2 ^ 64 := by
  unfold align Builder.alignmentOf
  split_ifs
  · exact (Segment.entry g).alignment.isLt
  · decide

/-- The entry of a segment whose payload is at `off`. -/
def entryAt (g : Segment) (off : Nat) : Entry := { g.entry with fileOffset := BitVec.ofNat 64 off }

end Segment

/-- Where the payloads end, without a bound. -/
def layoutEnd : List Segment → Nat → Nat
  | [], current => current
  | g :: gs, current => layoutEnd gs (alignUp current g.align + g.data.length)

theorem le_layoutEnd (gs : List Segment) (current : Nat) : current ≤ layoutEnd gs current := by
  induction gs generalizing current with
  | nil => exact le_rfl
  | cons g gs ih => exact (le_alignUp current g.align).trans ((Nat.le_add_right _ _).trans (ih _))

/-- Before each payload the sum of the offset and the alignment is a 64-bit number. -/
def SumsFit : List Segment → Nat → Prop
  | [], _ => True
  | g :: gs, current => current + g.align < 2 ^ 64 ∧ SumsFit gs (alignUp current g.align + g.data.length)

/-- The builder does not panic: a release build never, a development build if the sums fit. -/
def Builds (profile : Profile) (gs : List Segment) (current : Nat) : Prop :=
  profile = .release ∨ SumsFit gs current

/-- The payloads are in the file one behind the other, from `current` on, each at an aligned offset. -/
inductive Laid (file : List UInt8) : Nat → List Entry → List Segment → Prop where
  | nil (current : Nat) : Laid file current [] []
  | cons {current : Nat} {g : Segment} {es : List Entry} {gs : List Segment}
      (small : alignUp current g.align + g.data.length < 2 ^ 64)
      (inside : alignUp current g.align + g.data.length ≤ file.length)
      (payload : slice file (alignUp current g.align) (alignUp current g.align + g.data.length) = g.data)
      (rest : Laid file (alignUp current g.align + g.data.length) es gs) :
      Laid file current (g.entryAt (alignUp current g.align) :: es) (g :: gs)

/-- The builder extends its buffer by the payloads. -/
theorem placeAll_laid {profile : Profile} {gs : List Segment} {current : Nat} {buf : List UInt8}
    (length : buf.length = current) (fits : layoutEnd gs current < 2 ^ 64)
    (builds : Builds profile gs current) : ∃ es tail,
      Builder.placeAll profile (gs.map fun g => (g.entry, g.data)) current buf = some (es, buf ++ tail) ∧
        (buf ++ tail).length = layoutEnd gs current ∧ Laid (buf ++ tail) current es gs := by
  induction gs generalizing current buf with
  | nil => exact ⟨[], [], by simp [Builder.placeAll], by simpa [layoutEnd] using length, .nil current⟩
  | cons g gs ih =>
    have behind := le_layoutEnd gs (alignUp current g.align + g.data.length)
    have bound : alignUp current g.align + g.data.length < 2 ^ 64 := behind.trans_lt fits
    have after := le_alignUp current g.align
    generalize aligned_eq : alignUp current g.align = aligned at *
    have aligns : Builder.alignedOffset profile current (Builder.alignmentOf g.entry) = some aligned := by
      have fits' : alignUp current g.align < 2 ^ 64 := by omega
      rw [← aligned_eq]
      exact alignedOffset_eq g.align_pos g.align_lt fits' (builds.imp_right (·.1))
    have next : profile.add aligned g.data.length = some (aligned + g.data.length) := if_pos bound
    -- the padding, empty where nothing is to be padded
    have padded : (if aligned > current then buf ++ List.replicate (aligned - current) 0 else buf) =
        buf ++ List.replicate (aligned - current) 0 := by
      split_ifs with later
      · rfl
      · rw [Nat.sub_eq_zero_of_le (by omega), List.replicate_zero, List.append_nil]
    have padded_length : (buf ++ List.replicate (aligned - current) 0).length = aligned := by
      rw [List.length_append, List.length_replicate, length]
      omega
    have length' : (buf ++ List.replicate (aligned - current) 0 ++ g.data).length =
        aligned + g.data.length := by rw [List.length_append, padded_length]
    rw [layoutEnd, aligned_eq] at fits
    have builds' : Builds profile gs (aligned + g.data.length) := builds.imp_right fun sums => by
      rw [SumsFit, aligned_eq] at sums
      exact sums.2
    obtain ⟨es, tail, placed, total, laid⟩ := ih length' fits builds'
    have file_eq : buf ++ (List.replicate (aligned - current) 0 ++ g.data ++ tail) =
        buf ++ List.replicate (aligned - current) 0 ++ g.data ++ tail := by
      simp only [List.append_assoc]
    refine ⟨g.entryAt aligned :: es, List.replicate (aligned - current) 0 ++ g.data ++ tail, ?_, ?_, ?_⟩
    · simp only [List.map_cons, Builder.placeAll, Option.bind_eq_bind, aligns, Option.bind_some, padded,
        next, placed, file_eq]
      rfl
    · rw [file_eq, total, layoutEnd, aligned_eq]
    · rw [file_eq]
      have inside : aligned + g.data.length ≤
          (buf ++ List.replicate (aligned - current) 0 ++ g.data ++ tail).length := by
        rw [List.length_append, List.length_append, padded_length]
        exact Nat.le_add_right _ _
      have payload : slice (buf ++ List.replicate (aligned - current) 0 ++ g.data ++ tail) aligned
          (aligned + g.data.length) = g.data := by
        rw [List.append_assoc, slice_append padded_length.le, padded_length, Nat.sub_self,
          Nat.add_sub_cancel_left]
        exact slice_front rfl
      subst aligned_eq
      exact .cons bound inside payload laid

section Laid

variable {file file' : List UInt8} {current : Nat} {es : List Entry} {gs : List Segment}

theorem Laid.length (h : Laid file current es gs) : es.length = gs.length := by
  induction h with
  | nil => rfl
  | cons _ _ _ _ ih => rw [List.length_cons, List.length_cons, ih]

/-- The bytes before the payloads do not matter. -/
theorem Laid.congr (h : Laid file current es gs) {base : Nat} (before : base ≤ current)
    (same : file'.drop base = file.drop base) (length : file'.length = file.length) :
    Laid file' current es gs := by
  induction h with
  | nil current => exact .nil current
  | @cons current g es gs small inside payload rest ih =>
    have later := before.trans (le_alignUp current g.align)
    refine .cons small (length ▸ inside) ?_ (ih (later.trans (Nat.le_add_right _ _)))
    have split : alignUp current g.align = base + (alignUp current g.align - base) := by omega
    unfold slice at payload ⊢
    rw [split, ← List.drop_drop] at payload ⊢
    rw [same]
    exact payload

theorem entryAt_size {g : Segment} {off : Nat} (small : off + g.data.length < 2 ^ 64) :
    (g.entryAt off).fileOffset.toNat = off ∧ (g.entryAt off).fileSize.toNat = g.data.length := by
  refine ⟨?_, ?_⟩
  · exact (BitVec.toNat_ofNat _ _).trans (Nat.mod_eq_of_lt (by omega))
  · exact (BitVec.toNat_ofNat _ _).trans (Nat.mod_eq_of_lt (by omega))

/-- The place of one payload. -/
theorem Laid.get (h : Laid file current es gs) {i : Nat} {g : Segment} (found : gs[i]? = some g) :
    ∃ before, current ≤ before ∧ es[i]? = some (g.entryAt (alignUp before g.align)) ∧
      alignUp before g.align + g.data.length < 2 ^ 64 ∧
      alignUp before g.align + g.data.length ≤ file.length ∧
      slice file (alignUp before g.align) (alignUp before g.align + g.data.length) = g.data := by
  induction h generalizing i with
  | nil => cases found
  | @cons current g' es gs small inside payload rest ih =>
    match i with
    | 0 =>
      obtain rfl : g' = g := Option.some.inj found
      exact ⟨current, le_rfl, rfl, small, inside, payload⟩
    | i + 1 =>
      obtain ⟨before, later, rest⟩ := ih (i := i) found
      have after := le_alignUp current g'.align
      exact ⟨before, by omega, rest⟩

theorem Laid.behind (h : Laid file current es gs) : ∀ e ∈ es, current ≤ e.fileOffset.toNat := by
  induction h with
  | nil => exact fun _ mem => absurd mem List.not_mem_nil
  | @cons current g es gs small inside payload rest ih =>
    have after := le_alignUp current g.align
    intro e mem
    rcases List.mem_cons.mp mem with rfl | mem
    · rw [(entryAt_size small).1]
      exact after
    · have later := ih e mem
      omega

theorem Laid.apart (h : Laid file current es gs) : es.Pairwise fun a b =>
    a.fileOffset.toNat + a.fileSize.toNat ≤ b.fileOffset.toNat := by
  induction h with
  | nil => exact .nil
  | @cons current g es gs small inside payload rest ih =>
    refine .cons (fun e mem => ?_) ih
    rw [(entryAt_size small).1, (entryAt_size small).2]
    exact rest.behind e mem

end Laid

/-! ## The header and the entries -/

theorem splice_middle {α : Type} {xs ys zs ws : List α} (length : zs.length = ys.length) :
    splice (xs ++ (ys ++ ws)) xs.length zs = xs ++ (zs ++ ws) := by
  have kept : (xs ++ (ys ++ ws)).drop (xs.length + zs.length) = ws := by
    rw [← List.append_assoc, length, ← List.length_append, List.drop_left]
  rw [splice, List.take_left, kept, List.append_assoc]

/-- Write the checksum. -/
theorem splice_checksum (h : Header) (c : BitVec 32) (rest : List UInt8) :
    splice (h.toBytes ++ rest) 30 (leBytes c) = { h with checksum := c }.toBytes ++ rest := by
  have split (c : BitVec 32) : { h with checksum := c }.toBytes ++ rest =
      (leBytes h.magic ++ leBytes h.versionMajor ++ leBytes h.versionMinor ++ leBytes h.endian ++
        leBytes h.arch ++ leBytes h.fileType ++ leBytes h.headerCount ++ leBytes h.headerOffset ++
          leBytes h.dataOffset ++ leBytes h.fileSize) ++
        (leBytes c ++ (leBytes h.flags ++ leBytes h.entryPoint ++ h.reserved.val ++ rest)) := by
    simp only [Header.toBytes, List.append_assoc]
  have length : (leBytes h.magic ++ leBytes h.versionMajor ++ leBytes h.versionMinor ++ leBytes h.endian ++
        leBytes h.arch ++ leBytes h.fileType ++ leBytes h.headerCount ++ leBytes h.headerOffset ++
          leBytes h.dataOffset ++ leBytes h.fileSize).length = 30 := by
    simp only [List.length_append, leBytes_length]
  have same : (leBytes c).length = (leBytes h.checksum).length := by
    rw [leBytes_length, leBytes_length]
  have before := split h.checksum
  rw [before, split c, ← length]
  exact splice_middle same

theorem masked_eq {bytes : List UInt8} (long : 34 ≤ bytes.length) :
    masked bytes = splice bytes 30 (leBytes (0 : BitVec 32)) := by
  apply List.ext_getElem?
  intro i
  have zeros : leBytes (0 : BitVec 32) = [0, 0, 0, 0] := by decide
  rw [splice_getElem? (by rw [zeros]; simpa using long), zeros, masked, List.getElem?_mapIdx]
  by_cases inside : 30 ≤ i ∧ i < 34
  · rw [if_pos (by simpa using inside), List.getElem?_eq_getElem (by omega)]
    simp only [inside, Option.map_some]
    obtain ⟨lo, hi⟩ := inside
    interval_cases i <;> rfl
  · rw [if_neg (by simpa using inside)]
    simp [inside]

theorem writeEntries_eq (es : List Entry) (off : Nat) (buf : List UInt8)
    (room : off + es.length * Entry.size ≤ buf.length) :
    Builder.writeEntries es off buf = splice buf off (es.flatMap Entry.toBytes) := by
  induction es generalizing off buf with
  | nil => simp [Builder.writeEntries]
  | cons e es ih =>
    have total : (es.flatMap Entry.toBytes).length = es.length * Entry.size := by
      simp [List.length_flatMap]
    rw [List.length_cons, Nat.succ_mul] at room
    have length : (splice buf off e.toBytes).length = buf.length :=
      splice_length (by rw [Entry.toBytes_length]; omega)
    rw [Builder.writeEntries, ih _ _ (by omega), List.flatMap_cons]
    have fits : off + e.toBytes.length + (es.flatMap Entry.toBytes).length ≤ buf.length := by
      rw [Entry.toBytes_length, total]
      omega
    have joined := splice_splice fits
    rw [Entry.toBytes_length] at joined
    exact joined

/-- One of the entries. -/
theorem flatMap_slice {es : List Entry} {i : Nat} {e : Entry} (found : es[i]? = some e)
    (rest : List UInt8) : slice (es.flatMap Entry.toBytes ++ rest) (i * Entry.size)
      (i * Entry.size + Entry.size) = e.toBytes := by
  induction es generalizing i with
  | nil => cases found
  | cons e' es ih =>
    rw [List.flatMap_cons, List.append_assoc]
    match i with
    | 0 =>
      obtain rfl : e' = e := Option.some.inj found
      rw [Nat.zero_mul, Nat.zero_add]
      exact slice_front e'.toBytes_length
    | i + 1 =>
      rw [slice_append (by rw [Entry.toBytes_length]; exact Nat.le_mul_of_pos_left _ (Nat.succ_pos i)),
        Entry.toBytes_length, Nat.succ_mul, Nat.add_sub_cancel, Nat.add_sub_cancel]
      exact ih found

/-! ## The image -/

/-- A file with the checksum entered. -/
def sealed (h : Header) (rest : List UInt8) : List UInt8 :=
  { h with checksum := crc32Ieee (h.toBytes ++ rest) }.toBytes ++ rest

theorem sealed_length (h : Header) (rest : List UInt8) :
    (sealed h rest).length = Header.size + rest.length := by
  rw [sealed, List.length_append, Header.toBytes_length]

/-- Such a file is accepted. -/
theorem sealed_accepted {h : Header} {rest : List UInt8} (magic : h.magic = Header.magicValue)
    (version : h.versionMajor = 1) (zero : h.checksum = 0)
    (size : h.fileSize.toNat = Header.size + rest.length) :
    Parser.new (sealed h rest) =
      .ok ⟨sealed h rest, { h with checksum := crc32Ieee (h.toBytes ++ rest) }⟩ := by
  have length := sealed_length h rest
  have whole : (sealed h rest).take h.fileSize.toNat = sealed h rest := by
    rw [size, ← length, List.take_length]
  have unsealed : masked (sealed h rest) = h.toBytes ++ rest := by
    rw [masked_eq (by rw [length]; exact Nat.le_add_right_of_le (by decide)), sealed, splice_checksum]
    rw [← zero]
  refine new_ok.mpr ⟨rfl, ?_, ?_, ?_, ?_⟩
  · rw [length]
    exact Nat.le_add_right _ _
  · exact Header.fromBytes_toBytes (h := { h with checksum := crc32Ieee (h.toBytes ++ rest) }) magic
      version rest
  · exact (size.trans length.symm).le
  · change crc32Ieee (h.toBytes ++ rest) = crc32Ieee (masked ((sealed h rest).take h.fileSize.toNat))
    rw [whole, unsealed]

section Image

variable {profile : Profile} {segments : List Segment}

theorem foldl_addSegment (b : Builder) (gs : List Segment) (count : b.header.headerCount =
    BitVec.ofNat 16 b.entries.length) :
    gs.foldl Builder.addSegment b =
      { header := { b.header with headerCount := BitVec.ofNat 16 (b.entries.length + gs.length) }
        entries := b.entries ++ gs.map Segment.entry
        sectionsData := b.sectionsData ++ gs.map Segment.data } := by
  induction gs generalizing b with
  | nil => simp [← count]
  | cons g gs ih =>
    rw [List.foldl_cons, ih _ (by simp [Builder.addSegment])]
    simp [Builder.addSegment, Nat.add_assoc, Nat.add_comm 1]

/-- The header of the image, with the checksum still to come. -/
def imageHeader (arch : BitVec 8) (fileType : BitVec 16) (flags : BitVec 32) (entryPoint : BitVec 64)
    (count total : Nat) : Header :=
  { (Builder.new arch fileType flags entryPoint).header with
    headerCount := BitVec.ofNat 16 count
    dataOffset := BitVec.ofNat 32 (Header.size + count * Entry.size)
    fileSize := BitVec.ofNat 64 total }

def dataStart (segments : List Segment) : Nat := Header.size + segments.length * Entry.size

theorem builderOf_eq (arch : BitVec 8) (fileType : BitVec 16) (flags : BitVec 32) (entryPoint : BitVec 64) :
    builderOf arch fileType flags entryPoint segments =
      { header := { (Builder.new arch fileType flags entryPoint).header with
          headerCount := BitVec.ofNat 16 segments.length }
        entries := segments.map Segment.entry
        sectionsData := segments.map Segment.data } := by
  rw [builderOf, foldl_addSegment _ _ rfl]
  simp [Builder.new]

/-- The image is the header with its checksum, the entries, and the payloads. -/
theorem build_eq (arch : BitVec 8) (fileType : BitVec 16) (flags : BitVec 32) (entryPoint : BitVec 64)
    (fits : layoutEnd segments (dataStart segments) < 2 ^ 64)
    (builds : Builds profile segments (dataStart segments)) : ∃ es tail,
    Laid (List.replicate (dataStart segments) 0 ++ tail) (dataStart segments) es segments ∧
    (List.replicate (dataStart segments) 0 ++ tail : List UInt8).length =
      layoutEnd segments (dataStart segments) ∧
    ∀ header, header = imageHeader arch fileType flags entryPoint segments.length
        (layoutEnd segments (dataStart segments)) →
      (builderOf arch fileType flags entryPoint segments).build profile =
        some (sealed header (es.flatMap Entry.toBytes ++ tail)) := by
  have zeros : (List.replicate (dataStart segments) (0 : UInt8)).length = dataStart segments :=
    List.length_replicate
  obtain ⟨es, tail, placed, total, laid⟩ := placeAll_laid zeros fits builds
  refine ⟨es, tail, laid, total, ?_⟩
  rintro header header_eq
  have zipped : (segments.map Segment.entry).zip (segments.map Segment.data) =
      segments.map fun g => (g.entry, g.data) := List.zip_map'
  have table_length : (es.flatMap Entry.toBytes).length = segments.length * Entry.size := by
    simp [List.length_flatMap, laid.length]
  have start_eq : dataStart segments = Header.size + segments.length * Entry.size := rfl
  -- the header and the entries take the place of the zeros
  have written : Builder.writeEntries es Header.size
      (splice (List.replicate (dataStart segments) 0 ++ tail) 0 header.toBytes) =
        header.toBytes ++ (es.flatMap Entry.toBytes ++ tail) := by
    have room : 0 + header.toBytes.length + (es.flatMap Entry.toBytes).length ≤
        (List.replicate (dataStart segments) (0 : UInt8) ++ tail).length := by
      rw [List.length_append, zeros, Header.toBytes_length, table_length]
      omega
    have length : (splice (List.replicate (dataStart segments) 0 ++ tail) 0 header.toBytes).length =
        (List.replicate (dataStart segments) (0 : UInt8) ++ tail).length := splice_length (by omega)
    have joined := splice_splice room
    rw [Nat.zero_add, Header.toBytes_length] at joined
    rw [writeEntries_eq _ _ _ (by rw [length, List.length_append, zeros, laid.length]; omega), joined]
    have same : (header.toBytes ++ es.flatMap Entry.toBytes).length =
        (List.replicate (dataStart segments) (0 : UInt8)).length := by
      rw [List.length_append, Header.toBytes_length, table_length, zeros]
      rfl
    have placed_table : splice ([] ++ (List.replicate (dataStart segments) 0 ++ tail)) ([] : List UInt8).length
        (header.toBytes ++ es.flatMap Entry.toBytes) = [] ++ (_ ++ tail) := splice_middle same
    rwa [List.nil_append, List.nil_append, List.append_assoc] at placed_table
  have cleared : splice (header.toBytes ++ (es.flatMap Entry.toBytes ++ tail)) 30 [0, 0, 0, 0] =
      header.toBytes ++ (es.flatMap Entry.toBytes ++ tail) := by
    have same := splice_checksum header 0 (es.flatMap Entry.toBytes ++ tail)
    have unchanged : { header with checksum := 0 } = header := by rw [header_eq]; rfl
    rwa [unchanged] at same
  have header_eq' : { (Builder.new arch fileType flags entryPoint).header with
      headerCount := BitVec.ofNat 16 segments.length
      dataOffset := BitVec.ofNat 32 (dataStart segments)
      fileSize := BitVec.ofNat 64 (layoutEnd segments (dataStart segments)) } = header := header_eq.symm
  rw [builderOf_eq, Builder.build]
  simp only [List.length_map, zipped, ← start_eq, placed, Option.bind_eq_bind, Option.bind_some, total,
    header_eq', written, cleared]
  exact congrArg some (splice_checksum header _ _)

/-- The parser gives back what was built. -/
structure ParsedBack (profile : Profile) (p : Parser) (segments : List Segment) : Prop where
  count : p.header.headerCount.toNat = segments.length
  entry : ∀ (i : Nat) (g : Segment), segments[i]? = some g → ∃ e, p.getEntry (BitVec.ofNat 16 i) = .ok e ∧
    e.ty = g.ty ∧ e.flags = g.flags ∧ e.virtualAddress = g.virtualAddress ∧ e.memSize = g.memSize ∧
      e.alignment = g.alignment ∧ e.fileSize.toNat = g.data.length ∧ p.getSegmentData profile e = .ok g.data ∧
        Header.size + segments.length * Entry.size ≤ e.fileOffset.toNat ∧
          (∀ k, g.alignment.toNat = 2 ^ k → g.alignment.toNat ∣ e.fileOffset.toNat) ∧
            (g.alignment = 0 → 16 ∣ e.fileOffset.toNat)
  apart : ∀ (i j : Nat) (a b : Entry), i < j → j < segments.length →
    p.getEntry (BitVec.ofNat 16 i) = .ok a → p.getEntry (BitVec.ofNat 16 j) = .ok b →
      a.fileOffset.toNat + a.fileSize.toNat ≤ b.fileOffset.toNat

/-- The entries are behind the header. -/
theorem getEntry_sealed {p : Parser} {h : Header} {es : List Entry} {tail : List UInt8}
    (data : p.data = sealed h (es.flatMap Entry.toBytes ++ tail)) (few : es.length < 65536)
    (count : p.header.headerCount = BitVec.ofNat 16 es.length)
    (offset : p.header.headerOffset = Header.defaultOffset) {i : Nat} {e : Entry} (found : es[i]? = some e) :
    p.getEntry (BitVec.ofNat 16 i) = .ok e := by
  have inside := (List.getElem?_eq_some_iff.mp found).1
  have table_length : (es.flatMap Entry.toBytes).length = es.length * Entry.size := by
    simp [List.length_flatMap]
  have start : p.header.headerOffset.toNat = Header.size := by rw [offset]; rfl
  have index : (BitVec.ofNat 16 i).toNat = i := by
    rw [BitVec.toNat_ofNat]
    omega
  have valid : ¬p.header.headerCount ≤ BitVec.ofNat 16 i := by
    rw [count, BitVec.le_def, index, BitVec.toNat_ofNat]
    omega
  have room : ¬Header.size + i * Entry.size + Entry.size > p.data.length := by
    have within : i * Entry.size + Entry.size ≤ es.length * Entry.size := by
      rw [← Nat.succ_mul]
      exact Nat.mul_le_mul_right _ inside
    rw [data, sealed, List.length_append, List.length_append, Header.toBytes_length, table_length]
    omega
  have bytes : slice p.data (Header.size + i * Entry.size) (Header.size + i * Entry.size + Entry.size) =
      e.toBytes := by
    rw [data, sealed, slice_append (by rw [Header.toBytes_length]; exact Nat.le_add_right _ _),
      Header.toBytes_length, Nat.add_sub_cancel_left, Nat.add_assoc, Nat.add_sub_cancel_left]
    exact flatMap_slice found tail
  simp only [Parser.getEntry_eq, ge_iff_le, valid, if_false, start, index, room, bytes]
  exact Entry.fromBytes_toBytes e

/-- A payload that was laid out is read back. -/
theorem getSegmentData_laid {p : Parser} {g : Segment} {off : Nat} (small : off + g.data.length < 2 ^ 64)
    (inside : off + g.data.length ≤ p.data.length) (payload : slice p.data off (off + g.data.length) = g.data) :
    p.getSegmentData profile (g.entryAt off) = .ok g.data := by
  obtain ⟨start, size⟩ := entryAt_size small
  have fits : (g.entryAt off).fileOffset.toNat + (g.entryAt off).fileSize.toNat < 2 ^ 64 := by
    rw [start, size]
    exact small
  rw [Parser.getSegmentData_small fits, start, size, if_neg (Nat.not_lt.mpr inside), payload]

/-- The builder succeeds, and the parser accepts the image and finds entries and payloads as laid out. -/
theorem build_accepted (arch : BitVec 8) (fileType : BitVec 16) (flags : BitVec 32) (entryPoint : BitVec 64)
    (few : segments.length < 65536) (fits : layoutEnd segments (dataStart segments) < 2 ^ 64)
    (builds : Builds profile segments (dataStart segments)) : ∃ image p es,
      (builderOf arch fileType flags entryPoint segments).build profile = some image ∧
      Parser.new image = .ok p ∧ (p.header.arch = arch ∧ p.header.fileType = fileType ∧
        p.header.flags = flags ∧ p.header.entryPoint = entryPoint) ∧
      p.header.headerCount.toNat = segments.length ∧
      (∀ {i : Nat} {e : Entry}, es[i]? = some e → p.getEntry (BitVec.ofNat 16 i) = .ok e) ∧
      Laid p.data (dataStart segments) es segments := by
  obtain ⟨es, tail, laid, total, built⟩ := build_eq arch fileType flags entryPoint fits builds
  have run := built _ rfl
  generalize header_eq : imageHeader arch fileType flags entryPoint segments.length
    (layoutEnd segments (dataStart segments)) = header at run
  have table_length : (es.flatMap Entry.toBytes).length = segments.length * Entry.size := by
    simp [List.length_flatMap, laid.length]
  have size : header.fileSize.toNat = Header.size + (es.flatMap Entry.toBytes ++ tail).length := by
    have stated : header.fileSize.toNat = layoutEnd segments (dataStart segments) := by
      rw [← header_eq]
      exact (BitVec.toNat_ofNat _ _).trans (Nat.mod_eq_of_lt fits)
    rw [stated, ← total, List.length_append, List.length_append, List.length_replicate, table_length,
      dataStart, Nat.add_assoc]
  have accepted := sealed_accepted (h := header) (by rw [← header_eq]; rfl) (by rw [← header_eq]; rfl)
    (by rw [← header_eq]; rfl) size
  generalize parser_eq : Parser.mk (sealed header (es.flatMap Entry.toBytes ++ tail))
    { header with checksum := crc32Ieee (header.toBytes ++ (es.flatMap Entry.toBytes ++ tail)) } = p at accepted
  have data : p.data = sealed header (es.flatMap Entry.toBytes ++ tail) := by rw [← parser_eq]
  have count : p.header.headerCount = BitVec.ofNat 16 es.length := by
    rw [← parser_eq, ← header_eq, laid.length]
    rfl
  have offset : p.header.headerOffset = Header.defaultOffset := by
    rw [← parser_eq, ← header_eq]
    rfl
  -- in the image the payloads are where they are behind the zeros
  have placed : Laid p.data (dataStart segments) es segments := by
    have start_length : ({ header with checksum := crc32Ieee (header.toBytes ++
        (es.flatMap Entry.toBytes ++ tail)) }.toBytes ++ es.flatMap Entry.toBytes).length =
          dataStart segments := by
      rw [List.length_append, Header.toBytes_length, table_length, dataStart]
    have zeros_length : (List.replicate (dataStart segments) (0 : UInt8)).length = dataStart segments :=
      List.length_replicate
    refine laid.congr le_rfl ?_ ?_
    · rw [data, sealed, ← List.append_assoc, List.drop_left' start_length, List.drop_left' zeros_length]
    · rw [data, sealed_length, List.length_append, List.length_append, table_length, zeros_length,
        dataStart, Nat.add_assoc]
  refine ⟨_, p, es, run, accepted, ⟨?_, ?_, ?_, ?_⟩, ?_, fun here => ?_, placed⟩
  · rw [← parser_eq, ← header_eq]
    rfl
  · rw [← parser_eq, ← header_eq]
    rfl
  · rw [← parser_eq, ← header_eq]
    rfl
  · rw [← parser_eq, ← header_eq]
    rfl
  · rw [count, laid.length, BitVec.toNat_ofNat, Nat.mod_eq_of_lt few]
  · exact getEntry_sealed data (laid.length ▸ few) count offset here

/-- The builder succeeds, and the parser accepts the image and gives everything back. -/
def RoundTrips (profile : Profile) (arch : BitVec 8) (fileType : BitVec 16) (flags : BitVec 32)
    (entryPoint : BitVec 64) (segments : List Segment) : Prop :=
  ∃ image p, (builderOf arch fileType flags entryPoint segments).build profile = some image ∧
    Parser.new image = .ok p ∧ p.header.arch = arch ∧ p.header.fileType = fileType ∧
    p.header.flags = flags ∧ p.header.entryPoint = entryPoint ∧ ParsedBack profile p segments

theorem alignedOffset_dev {current alignment aligned : Nat} (pos : 0 < alignment) (small : alignment < 2 ^ 64)
    (run : Builder.alignedOffset .dev current alignment = some aligned) :
    aligned = alignUp current alignment ∧ current + alignment < 2 ^ 64 := by
  simp only [Builder.alignedOffset, Option.bind_eq_bind, Option.bind_eq_some_iff] at run
  obtain ⟨sum, added, top, taken, mask, less, masked⟩ := run
  obtain ⟨rfl, room⟩ := Profile.add_dev added
  obtain ⟨rfl, -⟩ := Profile.sub_dev taken
  obtain ⟨rfl, -⟩ := Profile.sub_dev less
  have reassoc : current + alignment - 1 = current + (alignment - 1) := by omega
  refine ⟨?_, room⟩
  rw [← Option.some.inj masked, and_not_toNat, BitVec.toNat_ofNat, BitVec.toNat_ofNat, reassoc,
    Nat.mod_eq_of_lt (by omega : current + (alignment - 1) < 2 ^ 64),
    Nat.mod_eq_of_lt (by omega : alignment - 1 < 2 ^ 64)]
  rfl

/-- Without a panic everything fits, and so do the sums. -/
theorem placeAll_dev {gs : List Segment} {current : Nat} {buf : List UInt8} {r : List Entry × List UInt8}
    (start : current < 2 ^ 64)
    (run : Builder.placeAll .dev (gs.map fun g => (g.entry, g.data)) current buf = some r) :
    SumsFit gs current ∧ layoutEnd gs current < 2 ^ 64 := by
  induction gs generalizing current buf r with
  | nil => exact ⟨trivial, start⟩
  | cons g gs ih =>
    simp only [List.map_cons, Builder.placeAll, Option.bind_eq_bind, Option.bind_eq_some_iff] at run
    obtain ⟨aligned, aligns, next, added, rest, placed, result⟩ := run
    obtain ⟨rfl, sum⟩ := alignedOffset_dev g.align_pos g.align_lt aligns
    obtain ⟨rfl, room⟩ := Profile.add_dev added
    obtain ⟨sums, bound⟩ := ih room placed
    exact ⟨⟨sum, sums⟩, bound⟩

theorem build_dev {arch : BitVec 8} {fileType : BitVec 16} {flags : BitVec 32} {entryPoint : BitVec 64}
    {image : List UInt8} (few : segments.length < 65536)
    (run : (builderOf arch fileType flags entryPoint segments).build .dev = some image) :
    SumsFit segments (dataStart segments) ∧ layoutEnd segments (dataStart segments) < 2 ^ 64 := by
  have zipped : (segments.map Segment.entry).zip (segments.map Segment.data) =
      segments.map fun g => (g.entry, g.data) := List.zip_map'
  have start : Header.size + segments.length * Entry.size < 2 ^ 64 := by
    unfold Header.size Entry.size
    omega
  rw [builderOf_eq, Builder.build] at run
  simp only [List.length_map, zipped, Option.bind_eq_bind, Option.bind_eq_some_iff] at run
  obtain ⟨r, placed, result⟩ := run
  exact placeAll_dev start placed

/-! ## Which segments are given back -/

end Image

end CapsuleOS.Ohlink
