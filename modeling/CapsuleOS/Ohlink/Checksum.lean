import CapsuleOS.Ohlink.Parser

/-!
# The checksum bit by bit

The table and both loops over it, that of `crc32_ieee` and that of the parser, compute the reflected CRC-32 that is
defined with single bits.
-/
namespace CapsuleOS.Ohlink

open Lib

/-- All bits of the register are set at the start and flipped at the end. -/
def crc32Bitwise (bytes : List UInt8) : BitVec 32 :=
  ~~~Crc.bitwise crc32Polynomial 0xFFFFFFFF (bytes.map (·.toBitVec))

theorem crc32Ieee_eq_bitwise (bytes : List UInt8) : crc32Ieee bytes = crc32Bitwise bytes := by
  rw [crc32Ieee, crcOf, Crc.run_eq_bitwise crc32_isTable, crc32Bitwise]

/-- The loop of the parser over the first bytes of a file. -/
theorem checksumLoop_masked (data : List UInt8) (fileSize : Nat) :
    (Parser.checksumLoop data fileSize 0 0xFFFFFFFF).map (~~~·) =
      .ok (crc32Ieee (masked (data.take fileSize))) := by
  rw [Parser.checksumLoop_ok, List.drop_zero, ← masked_take]
  rfl

/-- The function is the bitwise one, and the parser takes it of the bytes up to the file size with its own four
bytes as zeros. -/
theorem checksums_bitwise (bytes data : List UInt8) (fileSize : Nat) :
    crc32Ieee bytes = crc32Bitwise bytes ∧
      (Parser.checksumLoop data fileSize 0 0xFFFFFFFF).map (~~~·) =
        .ok (crc32Ieee (masked (data.take fileSize))) ∧
      (32 ≤ data.length →
        Parser.calculatedChecksum data fileSize = .ok (crc32Ieee (masked (data.take fileSize)))) := by
  exact ⟨crc32Ieee_eq_bitwise bytes, checksumLoop_masked data fileSize, fun enough =>
    calculatedChecksum_eq enough fileSize⟩

/-- A header with the four bytes set, and nothing behind it. -/
theorem checksums_bitwise_header :
    crc32Ieee [1] = crc32Bitwise [1] ∧ Parser.calculatedChecksum (List.replicate 64 255) 64 =
      .ok (crc32Ieee (List.replicate 30 255 ++ List.replicate 4 0 ++ List.replicate 30 255)) := by
  have general := checksums_bitwise [1] (List.replicate 64 255) 64
  have bytes : masked ((List.replicate 64 255).take 64) =
      List.replicate 30 255 ++ List.replicate 4 0 ++ List.replicate 30 255 := by decide
  rw [← bytes]
  exact ⟨general.1, general.2.2 (by simp)⟩

end CapsuleOS.Ohlink
