import CapsuleOS.Ohlink.Format

/-!
# Parsing

The checksum covers the bytes up to the file size that the header states, with the bytes of the checksum
itself taken as zero.
-/
namespace CapsuleOS.Ohlink

open Lib

/-- The bytes that the checksum is about. -/
def masked (bytes : List UInt8) : List UInt8 :=
  bytes.mapIdx fun i byte => if 30 ≤ i ∧ i < 34 then 0 else byte

/-- The index is masked to a byte, and the table has 256 words. -/
def tableWord (i : Nat) : Except Stop (BitVec 32) :=
  match crc32Words[i]? with
  | some word => .ok word
  | none => .error .panic

structure Parser where
  data : List UInt8
  header : Header

namespace Parser

/-- A byte of the checksum itself counts as zero. -/
def maskedByte (data : List UInt8) (i : Nat) : Except Stop UInt8 :=
  if 30 ≤ i ∧ i < 34 then .ok 0 else readByte .panic data i

/-- The loop over the bytes of the checksum, from the byte `i` on. -/
def checksumLoop (data : List UInt8) : Nat → Nat → BitVec 32 → Except Stop (BitVec 32)
  | 0, _, crc => .ok crc
  | rounds + 1, i, crc =>
    if i ≥ data.length then .ok crc
    else do
      let byte ← maskedByte data i
      let word ← tableWord ((crc ^^^ byte.toBitVec.setWidth 32) &&& 0xFF).toNat
      checksumLoop data rounds (i + 1) ((crc >>> 8) ^^^ word)

def calculatedChecksum (data : List UInt8) (limit : Nat) : Except Stop (BitVec 32) :=
  if data.length ≥ 32 then do
    let crc ← checksumLoop data limit 0 0xFFFFFFFF
    return ~~~crc
  else .ok 0

def new (data : List UInt8) : Except Stop Parser :=
  if data.length < Header.size then .error (.format .bufferTooSmall)
  else do
    let header ← Header.fromBytes data
    if data.length < header.fileSize.toNat then .error (.format .bufferTooSmall)
    else
      let calculated ← calculatedChecksum data header.fileSize.toNat
      if header.checksum ≠ calculated then
        .error (.format (.checksumMismatch header.checksum calculated))
      else .ok ⟨data, header⟩

def getEntry (p : Parser) (index : BitVec 16) : Except Stop Entry :=
  if index ≥ p.header.headerCount then .error (.format .invalidEntryIndex)
  else
    let start := p.header.headerOffset.toNat + index.toNat * Entry.size
    let stop := start + Entry.size
    if stop > p.data.length then .error (.format .bufferTooSmall)
    else do
      let bytes ← readSlice .panic p.data start stop
      Entry.fromBytes bytes

/-- A slice that ends before it starts panics as well. -/
def getSegmentData (profile : Profile) (p : Parser) (e : Entry) : Except Stop (List UInt8) :=
  let start := e.fileOffset.toNat
  match profile.add start e.fileSize.toNat with
  | none => .error .panic
  | some stop =>
    if stop > p.data.length then .error (.format .bufferTooSmall) else readSlice .panic p.data start stop

end Parser

/-! ## The checksum -/

@[simp] theorem masked_length (bytes : List UInt8) : (masked bytes).length = bytes.length :=
  List.length_mapIdx

theorem tableWord_ok (i : BitVec 8) : tableWord i.toNat = .ok (crc32Table i) := by
  have inside : i.toNat < crc32Words.length := crc32Words_length ▸ i.isLt
  unfold tableWord
  rw [List.getElem?_eq_getElem inside, crc32Table_eq i inside]

theorem masked_getElem? (data : List UInt8) (i : Nat) :
    (masked data)[i]? = (data[i]?).map fun byte => if 30 ≤ i ∧ i < 34 then 0 else byte :=
  List.getElem?_mapIdx

theorem masked_take (data : List UInt8) (n : Nat) : masked (data.take n) = (masked data).take n := by
  apply List.ext_getElem?
  intro i
  by_cases before : i < n
  · rw [List.getElem?_take_of_lt before, masked_getElem?, masked_getElem?, List.getElem?_take_of_lt before]
  · have outside : n ≤ i := Nat.not_lt.mp before
    rw [List.getElem?_take_eq_none outside, masked_getElem?, List.getElem?_take_eq_none outside]
    rfl

namespace Parser

variable {data : List UInt8}

theorem checksumLoop_ok (rounds i : Nat) (crc : BitVec 32) : checksumLoop data rounds i crc =
    .ok (Crc.run crc32Table crc ((((masked data).drop i).take rounds).map (·.toBitVec))) := by
  induction rounds generalizing i crc with
  | zero => rfl
  | succ rounds ih =>
    unfold checksumLoop
    split_ifs with behind
    · have none_left : (masked data).drop i = [] := List.drop_eq_nil_of_le (by rwa [masked_length])
      rw [none_left]
      rfl
    · have inside : i < data.length := Nat.not_le.mp behind
      have inside' : i < (masked data).length := by rwa [masked_length]
      -- the byte that the loop takes
      have taken : maskedByte data i = .ok (masked data)[i] := by
        have byte := masked_getElem? data i
        rw [List.getElem?_eq_getElem inside', List.getElem?_eq_getElem inside, Option.map_some] at byte
        have byte := Option.some.inj byte
        unfold maskedByte readByte
        rw [List.getElem?_eq_getElem inside, byte]
        split_ifs <;> rfl
      rw [taken, ok_bind, ← index_eq_mask, tableWord_ok, ok_bind, ih, List.drop_eq_getElem_cons inside',
        List.take_succ_cons]
      rfl

end Parser

/-! ## Acceptance -/

section Accept

variable {data : List UInt8} {p : Parser}

/-- What it takes for a file to be accepted. -/
structure Accepted (data : List UInt8) (header : Header) : Prop where
  long : Header.size ≤ data.length
  parsed : Header.fromBytes data = .ok header
  inside : header.fileSize.toNat ≤ data.length
  checksum : header.checksum = crc32Ieee (masked (data.take header.fileSize.toNat))

/-- The loop goes on to the limit, or to the end of the data. -/
theorem calculatedChecksum_eq (enough : 32 ≤ data.length) (limit : Nat) :
    Parser.calculatedChecksum data limit = .ok (crc32Ieee (masked (data.take limit))) := by
  unfold Parser.calculatedChecksum
  rw [if_pos enough, Parser.checksumLoop_ok, crc32Ieee, crcOf, masked_take, List.drop_zero]
  rfl

/-- A file with a whole header is turned down for its length or its checksum, or accepted. -/
theorem new_eq (long : Header.size ≤ data.length) {header : Header} (parsed : Header.fromBytes data = .ok header) :
    Parser.new data =
      if data.length < header.fileSize.toNat then .error (.format .bufferTooSmall)
      else if header.checksum ≠ crc32Ieee (masked (data.take header.fileSize.toNat)) then
        .error (.format (.checksumMismatch header.checksum
          (crc32Ieee (masked (data.take header.fileSize.toNat)))))
      else .ok ⟨data, header⟩ := by
  unfold Parser.new
  rw [if_neg (Nat.not_lt.mpr long), parsed, ok_bind, calculatedChecksum_eq (le_trans (by decide) long)]
  rfl

theorem new_ok : Parser.new data = .ok p ↔ p.data = data ∧ Accepted data p.header := by
  constructor
  · intro run
    by_cases long : Header.size ≤ data.length
    · cases parsed : Header.fromBytes data with
      | error stop =>
        unfold Parser.new at run
        rw [if_neg (Nat.not_lt.mpr long), parsed] at run
        cases run
      | ok header =>
        rw [new_eq long parsed] at run
        split_ifs at run with behind mismatch
        obtain rfl := Except.ok.inj run
        exact ⟨rfl, long, parsed, Nat.not_lt.mp behind, not_not.mp mismatch⟩
    · unfold Parser.new at run
      rw [if_pos (Nat.not_le.mp long)] at run
      cases run
  · rintro ⟨rfl, h⟩
    rw [new_eq h.long h.parsed, if_neg (Nat.not_lt.mpr h.inside), if_neg (not_not.mpr h.checksum)]

/-- A file that is well formed up to its checksum is turned down for the checksum. -/
theorem new_mismatch {header : Header} (long : Header.size ≤ data.length)
    (parsed : Header.fromBytes data = .ok header) (inside : header.fileSize.toNat ≤ data.length)
    (wrong : header.checksum ≠ crc32Ieee (masked (data.take header.fileSize.toNat))) :
    Parser.new data = .error (.format (.checksumMismatch header.checksum
      (crc32Ieee (masked (data.take header.fileSize.toNat))))) := by
  rw [new_eq long parsed, if_neg (Nat.not_lt.mpr inside), if_pos wrong]

/-- No access of a header, of an entry or of the checksum is out of range. -/
theorem new_ne_panic (data : List UInt8) : Parser.new data ≠ .error .panic := by
  by_cases long : Header.size ≤ data.length
  · cases parsed : Header.fromBytes data with
    | error stop =>
      unfold Parser.new
      rw [if_neg (Nat.not_lt.mpr long), parsed]
      intro panics
      exact Header.fromBytes_ne_panic data (parsed.trans (congrArg _ (Except.error.inj panics)))
    | ok header =>
      rw [new_eq long parsed]
      split_ifs <;> simp
  · unfold Parser.new
    rw [if_pos (Nat.not_le.mp long)]
    simp

theorem Parser.getEntry_eq (p : Parser) (index : BitVec 16) : p.getEntry index =
    if index ≥ p.header.headerCount then .error (.format .invalidEntryIndex)
    else if p.header.headerOffset.toNat + index.toNat * Entry.size + Entry.size > p.data.length then
      .error (.format .bufferTooSmall)
    else
      Entry.fromBytes (slice p.data (p.header.headerOffset.toNat + index.toNat * Entry.size)
        (p.header.headerOffset.toNat + index.toNat * Entry.size + Entry.size)) := by
  unfold Parser.getEntry
  dsimp only
  split_ifs with invalid behind
  · rfl
  · rfl
  · rw [readSlice_ok (Nat.le_add_right _ _) (Nat.not_lt.mp behind), ok_bind]

theorem Parser.getEntry_ne_panic (p : Parser) (index : BitVec 16) : p.getEntry index ≠ .error .panic := by
  rw [Parser.getEntry_eq]
  split_ifs with invalid behind
  · simp
  · simp
  · have width : (slice p.data (p.header.headerOffset.toNat + index.toNat * Entry.size)
        (p.header.headerOffset.toNat + index.toNat * Entry.size + Entry.size)).length = Entry.size := by
      rw [slice_length (Nat.le_add_right _ _) (Nat.not_lt.mp behind), Nat.add_sub_cancel_left]
    rw [Entry.fromBytes_eq width.ge]
    simp

/-- Without an overflow the profile does not matter. -/
theorem Parser.getSegmentData_small {profile : Profile} {e : Entry}
    (small : e.fileOffset.toNat + e.fileSize.toNat < 2 ^ 64) : p.getSegmentData profile e =
      if e.fileOffset.toNat + e.fileSize.toNat > p.data.length then .error (.format .bufferTooSmall)
      else .ok (slice p.data e.fileOffset.toNat (e.fileOffset.toNat + e.fileSize.toNat)) := by
  unfold Parser.getSegmentData Profile.add
  simp only [small, if_true]
  split_ifs with behind
  · rfl
  · exact readSlice_ok (Nat.le_add_right _ _) (Nat.not_lt.mp behind)

/-- A sum that wraps ends before it starts. -/
theorem Parser.getSegmentData_wrapped {e : Entry} (wraps : 2 ^ 64 ≤ e.fileOffset.toNat + e.fileSize.toNat) :
    p.getSegmentData .release e =
      if e.fileOffset.toNat + e.fileSize.toNat - 2 ^ 64 > p.data.length then .error (.format .bufferTooSmall)
      else .error .panic := by
  have start := e.fileOffset.isLt
  have size := e.fileSize.isLt
  have wrapped : (e.fileOffset.toNat + e.fileSize.toNat) % 2 ^ 64 =
      e.fileOffset.toNat + e.fileSize.toNat - 2 ^ 64 := by omega
  unfold Parser.getSegmentData Profile.add Profile.overflowed
  simp only [Nat.not_lt.mpr wraps, if_false, wrapped]
  split_ifs with behind
  · rfl
  · exact if_neg fun ordered => by omega

end Accept

end CapsuleOS.Ohlink
