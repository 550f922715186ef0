import CapsuleOS.Ohlink.RoundTrip

/-!
# What the checksum covers

The parser bounds entries and payloads by the length of the data, while the checksum covers the bytes up
to the stated file size. Whatever the parser hands out is covered exactly if the table of entries and the
payloads end before the file size (`TablesInside`).
-/
namespace CapsuleOS.Ohlink

open Lib

namespace Parser

variable {p q : Parser}

def fileSize (p : Parser) : Nat := p.header.fileSize.toNat

/-- Where an entry starts. -/
def entryStart (p : Parser) (index : BitVec 16) : Nat :=
  p.header.headerOffset.toNat + index.toNat * Entry.size

/-- Every byte that is handed out lies in the range of the checksum. -/
structure Covered (p : Parser) : Prop where
  entry : ∀ index e, p.getEntry index = .ok e →
    ∀ x, p.entryStart index ≤ x → x < p.entryStart index + Entry.size → x < p.fileSize
  payload : ∀ index e bytes, p.getEntry index = .ok e → p.getSegmentData .release e = .ok bytes →
    ∀ x, e.fileOffset.toNat ≤ x → x < e.fileOffset.toNat + bytes.length → x < p.fileSize

/-- The same entries and the same payloads are handed out. -/
structure SameResults (p q : Parser) : Prop where
  entry : ∀ index e, p.getEntry index = .ok e ↔ q.getEntry index = .ok e
  payload : ∀ index e bytes, p.getEntry index = .ok e →
    (p.getSegmentData .release e = .ok bytes ↔ q.getSegmentData .release e = .ok bytes)

/-- Everything handed out is covered by the checksum, and files that agree on the header and on the
range of the checksum are not told apart. -/
structure IntegrityChecked (p : Parser) : Prop where
  covered : p.Covered
  determined : ∀ q : Parser, Parser.new q.data = .ok q → q.header = p.header →
    q.data.take p.fileSize = p.data.take p.fileSize → SameResults p q

/-- The entry in the data, whether the parser returns it or not. -/
def storedEntry (p : Parser) (index : BitVec 16) : Except Stop Entry :=
  Entry.fromBytes (slice p.data (p.entryStart index) (p.entryStart index + Entry.size))

/-- The payload ends before the file size, its sum overflows, or it is empty and starts within what
every accepted file has. -/
def PayloadInside (p : Parser) (e : Entry) : Prop :=
  e.fileOffset.toNat + e.fileSize.toNat ≤ p.fileSize ∨
    2 ^ 64 ≤ e.fileOffset.toNat + e.fileSize.toNat ∨
      (e.fileSize = 0 ∧ e.fileOffset.toNat ≤ Header.size)

/-- The table of entries ends before the file size, and so do the payloads. -/
structure TablesInside (p : Parser) : Prop where
  entries : p.header.headerCount = 0 ∨
    p.header.headerOffset.toNat + p.header.headerCount.toNat * Entry.size ≤ p.fileSize
  payloads : ∀ index < p.header.headerCount, ∀ e, p.storedEntry index = .ok e → p.PayloadInside e

theorem getEntry_ok {index : BitVec 16} {e : Entry} : p.getEntry index = .ok e ↔
    index < p.header.headerCount ∧ p.entryStart index + Entry.size ≤ p.data.length ∧
      p.storedEntry index = .ok e := by
  rw [getEntry_eq]
  unfold storedEntry entryStart
  by_cases valid : p.header.headerCount ≤ index
  · have not_less : ¬index < p.header.headerCount := BitVec.not_lt.mpr valid
    simp [valid, not_less]
  · have less : index < p.header.headerCount := BitVec.not_le.mp valid
    by_cases room : p.header.headerOffset.toNat + index.toNat * Entry.size + Entry.size ≤ p.data.length
    · simp [valid, less, room, Nat.not_lt.mpr room]
    · simp [valid, room, Nat.not_le.mp room]

theorem getSegmentData_ok {e : Entry} {bytes : List UInt8} : p.getSegmentData .release e = .ok bytes ↔
    e.fileOffset.toNat + e.fileSize.toNat < 2 ^ 64 ∧
      e.fileOffset.toNat + e.fileSize.toNat ≤ p.data.length ∧
        bytes = slice p.data e.fileOffset.toNat (e.fileOffset.toNat + e.fileSize.toNat) := by
  by_cases small : e.fileOffset.toNat + e.fileSize.toNat < 2 ^ 64
  · rw [getSegmentData_small small]
    by_cases room : e.fileOffset.toNat + e.fileSize.toNat ≤ p.data.length
    · rw [if_neg (Nat.not_lt.mpr room)]
      exact ⟨fun eq => ⟨small, room, (Except.ok.inj eq).symm⟩, fun h => by rw [h.2.2]⟩
    · simp [room, Nat.not_le.mp room]
  · rw [getSegmentData_wrapped (Nat.not_lt.mp small)]
    simp only [small, false_and, iff_false]
    split_ifs <;> simp

end Parser

/-! ## Files with other tails -/

/-- The header is read from the first 64 bytes. -/
theorem fromBytes_congr {data data' : List UInt8} (long : Header.size ≤ data.length)
    (long' : Header.size ≤ data'.length) (same : data'.take Header.size = data.take Header.size) :
    Header.fromBytes data' = Header.fromBytes data := by
  have field (w off : Nat) (inside : off + w / 8 ≤ Header.size) :
      leField w data' off = leField w data off := leField_congr (slice_eq_of_take same inside)
  have reserved : slice data' 46 64 = slice data 46 64 := slice_eq_of_take same (by decide)
  simp only [Header.fromBytes_eq long, Header.fromBytes_eq long', field 32 0 (by decide), field 16 4 (by decide),
    field 16 6 (by decide), field 8 8 (by decide), field 8 9 (by decide), field 16 10 (by decide),
    field 16 12 (by decide), field 32 14 (by decide), field 32 18 (by decide), field 64 22 (by decide),
    field 32 30 (by decide), field 32 34 (by decide), field 64 38 (by decide), reserved]

/-- Behind the header and the range of the checksum a file may be anything. -/
theorem Accepted.other {data data' : List UInt8} {header : Header} (h : Accepted data header)
    (long : Header.size ≤ data'.length) (head : data'.take Header.size = data.take Header.size)
    (inside : header.fileSize.toNat ≤ data'.length)
    (range : data'.take header.fileSize.toNat = data.take header.fileSize.toNat) :
    Accepted data' header where
  long := long
  parsed := (fromBytes_congr h.long long head).trans h.parsed
  inside := inside
  checksum := range ▸ h.checksum

namespace Parser

variable {p : Parser}

/-- The file with zeros behind it. -/
def extended (p : Parser) (n : Nat) : Parser := ⟨p.data ++ List.replicate n 0, p.header⟩

/-- The file without what no accepted file needs. -/
def shortened (p : Parser) : Parser := ⟨p.data.take (max Header.size p.fileSize), p.header⟩

theorem extended_new (h : Accepted p.data p.header) (n : Nat) :
    Parser.new (p.extended n).data = .ok (p.extended n) := by
  have long : p.data.length ≤ (p.extended n).data.length := by simp [extended]
  refine new_ok.mpr ⟨rfl, h.other (h.long.trans long) ?_ (h.inside.trans long) ?_⟩
  · exact List.take_append_of_le_length h.long
  · exact List.take_append_of_le_length h.inside

theorem shortened_length (h : Accepted p.data p.header) :
    p.shortened.data.length = max Header.size p.fileSize := by
  rw [shortened, List.length_take]
  exact min_eq_left (max_le h.long h.inside)

theorem shortened_new (h : Accepted p.data p.header) : Parser.new p.shortened.data = .ok p.shortened := by
  have length := shortened_length h
  refine new_ok.mpr ⟨rfl, h.other ?_ ?_ ?_ ?_⟩
  · rw [length]
    exact le_max_left _ _
  · rw [shortened, List.take_take, min_eq_left (le_max_left _ _)]
  · rw [length]
    exact le_max_right _ _
  · rw [shortened, List.take_take, min_eq_left]
    exact le_max_right _ _

/-! ## When everything is covered -/

theorem TablesInside.entry_end (h : p.TablesInside) {index : BitVec 16}
    (valid : index < p.header.headerCount) : p.entryStart index + Entry.size ≤ p.fileSize := by
  rcases h.entries with none_there | table
  · rw [none_there] at valid
    exact absurd valid BitVec.not_lt_zero
  · have next : index.toNat + 1 ≤ p.header.headerCount.toNat := BitVec.lt_def.mp valid
    have scaled := Nat.mul_le_mul_right Entry.size next
    rw [Nat.succ_mul] at scaled
    unfold entryStart
    omega

theorem TablesInside.integrity (h : p.TablesInside) (accepted : Accepted p.data p.header) :
    p.IntegrityChecked where
  covered :=
    { entry := fun index e found x _ below =>
        below.trans_le (h.entry_end (getEntry_ok.mp found).1)
      payload := fun index e bytes found payload x _ below => by
        obtain ⟨valid, _, stored⟩ := getEntry_ok.mp found
        obtain ⟨small, inside, rfl⟩ := getSegmentData_ok.mp payload
        rw [slice_length (Nat.le_add_right _ _) inside] at below
        rcases h.payloads index valid e stored with ends | overflow | ⟨empty, _⟩
        · omega
        · omega
        · rw [empty] at below
          simp at below
          omega }
  determined q new same range := by
    obtain ⟨_, accepted'⟩ := new_ok.mp new
    have inside : p.fileSize ≤ p.data.length := accepted.inside
    have inside' : p.fileSize ≤ q.data.length := by
      have fits := accepted'.inside
      rwa [same] at fits
    have start_eq : ∀ index, q.entryStart index = p.entryStart index := fun index => by
      rw [entryStart, entryStart, same]
    have stored_eq : ∀ index < p.header.headerCount, q.storedEntry index = p.storedEntry index := by
      intro index valid
      rw [storedEntry, storedEntry, start_eq, slice_eq_of_take range (h.entry_end valid)]
    have entry : ∀ index e, p.getEntry index = .ok e ↔ q.getEntry index = .ok e := by
      intro index e
      rw [getEntry_ok, getEntry_ok, same, start_eq]
      refine and_congr_right fun valid => ?_
      have ends := h.entry_end valid
      rw [stored_eq index valid]
      exact and_congr_left fun _ => ⟨fun _ => ends.trans inside', fun _ => ends.trans inside⟩
    refine ⟨entry, fun index e bytes found => ?_⟩
    obtain ⟨valid, _, stored⟩ := getEntry_ok.mp found
    rw [getSegmentData_ok, getSegmentData_ok]
    refine and_congr_right fun small => ?_
    rcases h.payloads index valid e stored with ends | overflow | ⟨empty, early⟩
    · rw [slice_eq_of_take range ends]
      exact and_congr_left fun _ => ⟨fun _ => ends.trans inside', fun _ => ends.trans inside⟩
    · omega
    · have long := accepted.long
      have long' := accepted'.long
      have zero : e.fileSize.toNat = 0 := by rw [empty]; rfl
      rw [zero, Nat.add_zero]
      have nothing : ∀ xs : List UInt8, slice xs e.fileOffset.toNat e.fileOffset.toNat = [] := by
        intro xs
        rw [slice, Nat.sub_self, List.take_zero]
      rw [nothing, nothing]
      exact and_congr_left fun _ => ⟨fun _ => early.trans long', fun _ => early.trans long⟩

/-- With enough bytes behind the file the parser returns every entry of the table. -/
theorem IntegrityChecked.entry_end (h : p.IntegrityChecked) (accepted : Accepted p.data p.header)
    {index : BitVec 16} (valid : index < p.header.headerCount) {e : Entry}
    (stored : (p.extended (p.entryStart index + Entry.size)).storedEntry index = .ok e) :
    p.entryStart index + Entry.size ≤ p.fileSize := by
  have range : (p.extended (p.entryStart index + Entry.size)).data.take p.fileSize =
      p.data.take p.fileSize := List.take_append_of_le_length accepted.inside
  have same := h.determined _ (extended_new accepted _) rfl range
  have room : p.entryStart index + Entry.size ≤
      (p.extended (p.entryStart index + Entry.size)).data.length := by
    simp [extended]
  have found := (same.entry index e).mpr (getEntry_ok.mpr ⟨valid, room, stored⟩)
  have last := h.covered.entry index e found (p.entryStart index + 59) (Nat.le_add_right _ _)
    (Nat.add_lt_add_left (by decide) _)
  unfold Entry.size
  omega

/-- An entry can be read wherever there are 60 bytes. -/
theorem storedEntry_ok {index : BitVec 16} (room : p.entryStart index + Entry.size ≤ p.data.length) :
    ∃ e, p.storedEntry index = .ok e := by
  have length : (slice p.data (p.entryStart index) (p.entryStart index + Entry.size)).length = _ :=
    slice_length (Nat.le_add_right _ _) room
  rw [Nat.add_sub_cancel_left] at length
  exact ⟨_, Entry.fromBytes_eq length.ge⟩

theorem IntegrityChecked.tablesInside (h : p.IntegrityChecked) (accepted : Accepted p.data p.header) :
    p.TablesInside := by
  have ends : ∀ index < p.header.headerCount, p.entryStart index + Entry.size ≤ p.fileSize := by
    intro index valid
    have room : p.entryStart index + Entry.size ≤
        (p.extended (p.entryStart index + Entry.size)).data.length := by
      simp [extended]
    obtain ⟨e, stored⟩ := storedEntry_ok (p := p.extended (p.entryStart index + Entry.size)) room
    exact h.entry_end accepted valid stored
  refine ⟨?_, fun index valid e stored => ?_⟩
  · by_cases none_there : p.header.headerCount = 0
    · exact .inl none_there
    · -- the last entry is the one that ends last
      have pos : 0 < p.header.headerCount.toNat := by
        rcases Nat.eq_zero_or_pos p.header.headerCount.toNat with zero | pos
        · exact absurd (BitVec.eq_of_toNat_eq zero) none_there
        · exact pos
      have bound := p.header.headerCount.isLt
      have index_eq : (BitVec.ofNat 16 (p.header.headerCount.toNat - 1)).toNat =
          p.header.headerCount.toNat - 1 := by
        rw [BitVec.toNat_ofNat]
        omega
      have last := ends (BitVec.ofNat 16 (p.header.headerCount.toNat - 1)) (by
        rw [BitVec.lt_def, index_eq]
        omega)
      rw [entryStart, index_eq, Nat.add_assoc, ← Nat.succ_mul] at last
      refine .inr ?_
      rwa [Nat.succ_eq_add_one, Nat.sub_add_cancel pos] at last
  · have inside := (ends index valid).trans accepted.inside
    have found : p.getEntry index = .ok e := getEntry_ok.mpr ⟨valid, inside, stored⟩
    by_contra outside
    simp only [PayloadInside, not_or, not_and, Nat.not_le] at outside
    obtain ⟨long, small, empty⟩ := outside
    -- a file that is long enough hands the payload out
    have range : (p.extended (e.fileOffset.toNat + e.fileSize.toNat)).data.take p.fileSize =
        p.data.take p.fileSize := List.take_append_of_le_length accepted.inside
    have room : e.fileOffset.toNat + e.fileSize.toNat ≤
        (p.extended (e.fileOffset.toNat + e.fileSize.toNat)).data.length := by
      simp [extended]
    have same := h.determined _ (extended_new accepted _) rfl range
    have payload := (same.payload index e _ found).mpr (getSegmentData_ok.mpr ⟨small, room, rfl⟩)
    by_cases some_byte : e.fileSize = 0
    · -- an empty payload is not there in a shorter file
      have range' : p.shortened.data.take p.fileSize = p.data.take p.fileSize := by
        rw [shortened, List.take_take, min_eq_left (le_max_right _ _)]
      have same' := h.determined _ (shortened_new accepted) rfl range'
      have read := getSegmentData_ok.mp ((same'.payload index e _ found).mp payload)
      have length := shortened_length accepted
      have late := empty some_byte
      have zero : e.fileSize.toNat = 0 := by rw [some_byte]; rfl
      have reached := read.2.1
      rw [length] at reached
      rcases le_max_iff.mp reached with head | range <;> omega
    · have pos : 0 < e.fileSize.toNat := by
        rcases Nat.eq_zero_or_pos e.fileSize.toNat with zero | pos
        · exact absurd (BitVec.eq_of_toNat_eq zero) some_byte
        · exact pos
      have length : (slice (p.extended (e.fileOffset.toNat + e.fileSize.toNat)).data e.fileOffset.toNat
          (e.fileOffset.toNat + e.fileSize.toNat)).length = _ := slice_length (Nat.le_add_right _ _) room
      have last := h.covered.payload index e _ found payload (e.fileOffset.toNat + e.fileSize.toNat - 1)
        (by omega) (by rw [length]; omega)
      omega

/-- What an accepted file hands out is covered by its checksum exactly if the table and the payloads end
before the stated file size. -/
theorem integrity_iff {data : List UInt8} {p : Parser} (accepted : Parser.new data = .ok p) :
    p.IntegrityChecked ↔ p.TablesInside := by
  obtain ⟨rfl, ok⟩ := new_ok.mp accepted
  exact ⟨fun h => h.tablesInside ok, fun h => h.integrity ok⟩

end Parser

/-- A header for a file of 64 bytes that announces an entry behind it. -/
def bareHeader : Header := imageHeader 1 1 0 0 1 64

/-- The file with an entry that the checksum does not cover. -/
def bareParser : Parser :=
  ⟨sealed bareHeader [] ++ List.replicate 60 0, { bareHeader with checksum := crc32Ieee (bareHeader.toBytes ++ []) }⟩

theorem bareParser_new : Parser.new bareParser.data = .ok bareParser := by
  have new : Parser.new (sealed bareHeader []) = _ := sealed_accepted rfl rfl rfl rfl
  have accepted := (new_ok.mp new).2
  exact Parser.extended_new (p := ⟨sealed bareHeader [], _⟩) accepted 60

theorem integrity_iff_bare : bareParser.IntegrityChecked ↔ bareParser.TablesInside :=
  Parser.integrity_iff bareParser_new

/-- The parser returns an entry that is behind the range of the checksum. -/
theorem bare_entry_unchecked : ∃ p : Parser, Parser.new p.data = .ok p ∧ ¬p.IntegrityChecked := by
  refine ⟨bareParser, bareParser_new, fun h => ?_⟩
  have length : bareParser.data.length = 124 := by
    change (sealed bareHeader [] ++ List.replicate 60 0).length = 124
    rw [List.length_append, sealed_length, List.length_replicate]
    rfl
  have room : bareParser.entryStart 0 + Entry.size ≤ bareParser.data.length := by
    rw [length]
    decide
  obtain ⟨e, stored⟩ := Parser.storedEntry_ok room
  have found : bareParser.getEntry 0 = .ok e := Parser.getEntry_ok.mpr ⟨by decide, room, stored⟩
  have inside := h.covered.entry 0 e found 64 (by decide) (by decide)
  exact absurd inside (by decide)

end CapsuleOS.Ohlink
