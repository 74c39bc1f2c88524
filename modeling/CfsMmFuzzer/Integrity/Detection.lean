-- SUMMARY: Which one-byte corruptions the CRC tells apart, and which it loses for good.
import CfsMmFuzzer.Integrity.Crc32

/-!
# Corruption detection

A CRC-32 detects every change of one byte, and so does `MM_CalculateCRC32` where no
index is without an entry. Such an index reads as zero, like index 0: a change
between two of them is lost for good, and two messages have one value as soon as
their last four lookups agree (`calculateCRC32_eq_iff_lookups`).
-/

namespace MM

open Crc

/-- The table entries that the bytes of a message select; an index without an
entry selects entry 0. -/
def crcLookups (initial : UInt32) (bytes : List UInt8) : List UInt8 :=
  lookups crcPoly crcKnown initial.toBitVec bytes

theorem lt_of_known_or_zero {i : UInt8} (h : crcKnown i ∨ i = 0) : i.toNat < 16 := by
  obtain hknown | rfl := h
  · simpa [crcKnown, crcTableInit] using hknown
  · decide

/-- The sixteen entries differ in their top bytes. -/
theorem topBytesDiffer_crcPoly : TopBytesDiffer crcPoly crcKnown := by
  have hall : ∀ m n : Fin 16, entry crcPoly (UInt8.ofNat m) >>> 24 =
      entry crcPoly (UInt8.ofNat n) >>> 24 → m = n := by
    decide +kernel
  intro i j hi hj h
  have hij := hall ⟨i.toNat, lt_of_known_or_zero hi⟩ ⟨j.toNat, lt_of_known_or_zero hj⟩
    (by simpa using h)
  exact UInt8.toNat_inj.mp (Fin.mk.inj hij)

/-- Messages of one length have one value exactly when their last four lookups agree. -/
theorem calculateCRC32_eq_iff_lookups (initial : UInt32) {xs ys : List UInt8}
    (hlen : xs.length = ys.length) :
    calculateCRC32 (some xs) initial = calculateCRC32 (some ys) initial ↔
      (crcLookups initial xs).rtake 4 = (crcLookups initial ys).rtake 4 := by
  rw [← UInt32.toBitVec_inj, calculateCRC32_toBitVec, calculateCRC32_toBitVec]
  exact foldl_tableStep_eq_iff (by decide) (by decide) crcTable_toBitVec topBytesDiffer_crcPoly
    initial.toBitVec hlen

/-- Where the two bytes select one entry, the change is lost whatever follows. -/
theorem calculateCRC32_eq_of_lookup_eq (initial : UInt32) (pre post : List UInt8) {b₁ b₂ : UInt8}
    (h : lookup crcKnown (calculateCRC32 (some pre) initial).toBitVec b₁ =
      lookup crcKnown (calculateCRC32 (some pre) initial).toBitVec b₂) :
    calculateCRC32 (some (pre ++ b₁ :: post)) initial =
      calculateCRC32 (some (pre ++ b₂ :: post)) initial := by
  rw [calculateCRC32_toBitVec] at h
  rw [← UInt32.toBitVec_inj, calculateCRC32_toBitVec, calculateCRC32_toBitVec]
  simp only [List.foldl_append, List.foldl_cons]
  rw [tableStep_eq_lookup crcTable_toBitVec, tableStep_eq_lookup crcTable_toBitVec, h]

/-! ## One changed byte -/

/-- A full table detects every change of one byte. -/
theorem crcRegister_ne (initial : UInt32) (pre post : List UInt8) {b₁ b₂ : UInt8} (hb : b₁ ≠ b₂) :
    crcRegister initial (pre ++ b₁ :: post) ≠ crcRegister initial (pre ++ b₂ :: post) := by
  intro heq
  have hregister := congrArg UInt32.toBitVec heq
  exact register_ne_of_byte_ne (by decide) (by decide) initial.toBitVec pre post hb hregister

/-- An index without an entry reads as entry 0. -/
theorem lookup_of_missing {crc : UInt32} {b : UInt8}
    (h : ¬ (crc ^^^ b.toUInt32) &&& 0xFF < 16) : lookup crcKnown crc.toBitVec b = 0 :=
  if_neg (mt (crcKnown_index_iff crc b).mp h)

/-- **When a changed byte is detected.** The change is detected where neither message has an index
without an entry. It is lost, whatever follows, where both bytes are the first in their message
with such an index. -/
theorem calculateCRC32_detects (initial : UInt32) (pre post : List UInt8) (b₁ b₂ : UInt8) :
    (b₁ ≠ b₂ → InTable initial (pre ++ b₁ :: post) → InTable initial (pre ++ b₂ :: post) →
      calculateCRC32 (some (pre ++ b₁ :: post)) initial ≠
        calculateCRC32 (some (pre ++ b₂ :: post)) initial) ∧
    (InTable initial pre → ¬ InTable initial (pre ++ [b₁]) → ¬ InTable initial (pre ++ [b₂]) →
      calculateCRC32 (some (pre ++ b₁ :: post)) initial =
        calculateCRC32 (some (pre ++ b₂ :: post)) initial) := by
  constructor
  · intro hb h₁ h₂
    rw [calculateCRC32_of_inTable h₁, calculateCRC32_of_inTable h₂]
    exact crcRegister_ne initial pre post hb
  · intro hpre h₁ h₂
    apply calculateCRC32_eq_of_lookup_eq
    rw [inTable_concat, and_iff_right hpre] at h₁ h₂
    rw [calculateCRC32_of_inTable hpre, lookup_of_missing h₁, lookup_of_missing h₂]

theorem calculateCRC32_detects_last :
    calculateCRC32 (some [0xFE, 0x6B, 0xE1]) 0xFFFFFFFF ≠
        calculateCRC32 (some [0xFE, 0x6B, 0xE0]) 0xFFFFFFFF ∧
      calculateCRC32 (some [0x10, 0x01]) 0 = calculateCRC32 (some [0x20, 0x01]) 0 :=
  ⟨(calculateCRC32_detects 0xFFFFFFFF [0xFE, 0x6B] [] 0xE1 0xE0).1 (by decide) (by decide +kernel)
      (by decide +kernel),
    (calculateCRC32_detects 0 [] [0x01] 0x10 0x20).2 (by decide +kernel) (by decide +kernel)
      (by decide +kernel)⟩

/-- Two bytes without an entry are not told apart. -/
theorem calculateCRC32_same_value :
    calculateCRC32 (some [0x10]) 0 = calculateCRC32 (some [0x20]) 0 := by
  decide

end MM
