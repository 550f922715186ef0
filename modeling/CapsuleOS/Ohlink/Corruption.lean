import CapsuleOS.Ohlink.RoundTrip

/-!
# Changed images are turned down

A change within four bytes behind the checksum changes the checksum of the file: the register of the
checksum has four bytes.
-/
namespace CapsuleOS.Ohlink

open Lib

section Masked

variable {pre rest : List UInt8}

/-- Behind the checksum nothing is masked. -/
theorem masked_append (long : 34 ≤ pre.length) : masked (pre ++ rest) = masked pre ++ rest := by
  unfold masked
  rw [List.mapIdx_append]
  congr 1
  refine List.ext_getElem (by simp) fun i _ _ => ?_
  have behind : ¬(30 ≤ i + pre.length ∧ i + pre.length < 34) := by omega
  rw [List.getElem_mapIdx, if_neg behind]

end Masked

section Window

variable {pre w w' suf : List UInt8}

/-- The checksums of files that differ within four bytes are different. -/
theorem crc_ne_of_window (length : w.length = w'.length) (short : w.length ≤ 4) (ne : w ≠ w') :
    crc32Ieee (pre ++ w ++ suf) ≠ crc32Ieee (pre ++ w' ++ suf) := by
  intro eq
  have register : crcOf (pre ++ w ++ suf) = crcOf (pre ++ w' ++ suf) := by
    simpa only [crc32Ieee, BitVec.not_inj] using eq
  have bytes : Function.Injective (UInt8.toBitVec) := fun a b h => UInt8.toBitVec_inj.mp h
  unfold crcOf at register
  simp only [List.map_append] at register
  refine Crc.run_ne_of_burst crc32_tops (by decide) ?_ ?_ ?_ register
  · rw [List.length_map, List.length_map, length]
  · rw [List.length_map]
    omega
  · exact fun same => ne (List.map_injective_iff.mpr bytes same)

end Window

section Header

variable {data data' : List UInt8} {header : Header}

/-- What decides about the checksum is in the first 34 bytes. -/
theorem fromBytes_of_take (long : Header.size ≤ data'.length) (same : data'.take 34 = data.take 34)
    (parsed : Header.fromBytes data = .ok header) : ∃ header', Header.fromBytes data' = .ok header' ∧
      header'.fileSize = header.fileSize ∧ header'.checksum = header.checksum := by
  have field (w off : Nat) (inside : off + w / 8 ≤ 34) : leField w data' off = leField w data off :=
    leField_congr (slice_eq_of_take same inside)
  have long' : Header.size ≤ data.length := by
    by_contra short
    rw [Header.fromBytes_short (Nat.not_le.mp short)] at parsed
    cases parsed
  rw [Header.fromBytes_eq long'] at parsed
  split_ifs at parsed with magic version
  have header_eq := Except.ok.inj parsed
  rw [Header.fromBytes_eq long, field 32 0 (by decide), field 16 4 (by decide), if_neg magic, if_neg version]
  refine ⟨_, rfl, ?_, ?_⟩
  · rw [← header_eq]
    exact field 64 22 (by decide)
  · rw [← header_eq]
    exact field 32 30 (by decide)

end Header

/-- An image in which bytes of a window of at most four bytes behind the checksum are changed is turned
down for its checksum. -/
theorem corruption_detected {data data' : List UInt8} {p : Parser} (accepted : Parser.new data = .ok p)
    {lo hi : Nat} (behind : 34 ≤ lo) (window : hi ≤ lo + 4) (inside : hi ≤ p.header.fileSize.toNat)
    (length : data'.length = data.length) (same : ∀ i, i < lo ∨ hi ≤ i → data'[i]? = data[i]?)
    (changed : data' ≠ data) :
    ∃ calculated, Parser.new data' = .error (.format (.checksumMismatch p.header.checksum calculated)) := by
  obtain ⟨rfl, ok⟩ := new_ok.mp accepted
  have ordered : lo ≤ hi := by
    by_contra empty
    exact changed (List.ext_getElem? fun i => same i (by omega))
  have prefix_same : data'.take lo = p.data.take lo := by
    refine List.ext_getElem? fun i => ?_
    by_cases before : i < lo
    · rw [List.getElem?_take_of_lt before, List.getElem?_take_of_lt before, same i (.inl before)]
    · rw [List.getElem?_take_eq_none (by omega), List.getElem?_take_eq_none (by omega)]
  have suffix_same : data'.drop hi = p.data.drop hi := by
    refine List.ext_getElem? fun i => ?_
    rw [List.getElem?_drop, List.getElem?_drop, same _ (.inr (Nat.le_add_right _ _))]
  have slices : slice p.data lo hi ≠ slice data' lo hi := by
    intro eq
    refine changed ?_
    rw [← List.take_append_drop hi data', ← List.take_append_drop hi p.data, suffix_same,
      ← take_slice ordered, ← take_slice ordered, prefix_same, eq]
  -- the parts of both files, up to the file size
  have split : p.data.take p.header.fileSize.toNat =
      p.data.take lo ++ slice p.data lo hi ++ slice p.data hi p.header.fileSize.toNat := by
    rw [take_slice ordered, take_slice inside]
  have split' : data'.take p.header.fileSize.toNat =
      p.data.take lo ++ slice data' lo hi ++ slice p.data hi p.header.fileSize.toNat := by
    have tail_same : slice data' hi p.header.fileSize.toNat = slice p.data hi p.header.fileSize.toNat := by
      rw [slice, slice, suffix_same]
    rw [← prefix_same, take_slice ordered, ← tail_same, take_slice inside]
  have fits := ok.inside
  have prefix_long : 34 ≤ (p.data.take lo).length := by
    rw [List.length_take]
    omega
  have width : (slice p.data lo hi).length = hi - lo := slice_length ordered (by omega)
  have width' : (slice data' lo hi).length = hi - lo := slice_length ordered (by omega)
  have wrong : p.header.checksum ≠ crc32Ieee (masked (data'.take p.header.fileSize.toNat)) := by
    rw [ok.checksum, split, split', List.append_assoc, List.append_assoc, masked_append prefix_long,
      masked_append prefix_long, ← List.append_assoc, ← List.append_assoc]
    exact crc_ne_of_window (width.trans width'.symm) (by omega) slices
  have head_same : data'.take 34 = p.data.take 34 := by
    have cut (xs : List UInt8) : xs.take 34 = (xs.take lo).take 34 := by
      rw [List.take_take, Nat.min_eq_left behind]
    rw [cut, prefix_same, ← cut]
  have long' : Header.size ≤ data'.length := length ▸ ok.long
  obtain ⟨header', parsed', size_same, checksum_same⟩ := fromBytes_of_take long' head_same ok.parsed
  rw [← size_same, ← checksum_same] at wrong
  have inside' : header'.fileSize.toNat ≤ data'.length := by
    rw [size_same, length]
    exact fits
  have run := new_mismatch long' parsed' inside' wrong
  rw [checksum_same] at run
  exact ⟨_, run⟩

/-- A header for a file of 66 bytes. -/
def shortHeader : Header := imageHeader 1 1 0 0 0 66

/-- The header with its checksum for two zero bytes. -/
def shortSealed : Header := { shortHeader with checksum := crc32Ieee (shortHeader.toBytes ++ [0, 0]) }

theorem corruption_detected_short : ∃ calculated, Parser.new (shortSealed.toBytes ++ [1, 0]) =
    .error (.format (.checksumMismatch shortSealed.checksum calculated)) := by
  have accepted : Parser.new (sealed shortHeader [0, 0]) = .ok ⟨shortSealed.toBytes ++ [0, 0], shortSealed⟩ :=
    sealed_accepted rfl rfl rfl rfl
  have length : (shortSealed.toBytes ++ [1, 0]).length = (sealed shortHeader [0, 0]).length := by
    rw [sealed_length, List.length_append, Header.toBytes_length]
    rfl
  refine corruption_detected accepted (by decide : 34 ≤ 64) (by decide : 65 ≤ 64 + 4) (by decide) length
    (fun i outside => ?_) fun eq => ?_
  · change (shortSealed.toBytes ++ [1, 0])[i]? = (shortSealed.toBytes ++ [0, 0])[i]?
    rcases outside with before | after
    · rw [List.getElem?_append_left (by rw [Header.toBytes_length]; exact before),
        List.getElem?_append_left (by rw [Header.toBytes_length]; exact before)]
    · rw [List.getElem?_append_right (by rw [Header.toBytes_length]; exact Nat.le_of_succ_le after),
        List.getElem?_append_right (by rw [Header.toBytes_length]; exact Nat.le_of_succ_le after),
        Header.toBytes_length]
      obtain ⟨k, rfl⟩ := Nat.exists_eq_add_of_le after
      have later : 65 + k - Header.size = k + 1 := by
        unfold Header.size
        omega
      rw [later]
      rfl
  · exact absurd (List.append_cancel_left eq) (by decide)

end CapsuleOS.Ohlink
