-- SUMMARY: The table-driven CRC-32 against the bitwise register, with the exact effect of the table's missing entries.
import CfsMmFuzzer.Base.Crc
import CfsMmFuzzer.Common.Utils

/-!
# CRC-32

`MM_CalculateCRC32` looks its words up in a table of 256 entries of which the
first 16 are written out. It gives the CRC-32 of a message that meets none of the
others (`InTable`), and of any other message it gets a prefix wrong. In general it
computes the CRC-32 of the message with the error pattern `crcMisses` added.
-/

namespace MM

open Crc

/-- The reflected CRC-32 polynomial. -/
def crcPoly : BitVec 32 := 0xEDB88320

/-- The CRC-32 register after a message, bit by bit, without a final inversion. -/
def crcRegister (initial : UInt32) (bytes : List UInt8) : UInt32 :=
  UInt32.ofBitVec (register crcPoly initial.toBitVec bytes)

/-- The indices that the initialiser of `crc_table` covers. -/
def crcKnown (i : UInt8) : Bool := i.toNat < crcTableInit.length

/-- For each byte, its table index where that entry is missing, and 0 elsewhere. -/
def crcMisses (initial : UInt32) (bytes : List UInt8) : List UInt8 :=
  misses crcPoly crcKnown initial.toBitVec bytes

/-! ## The table -/

/-- The entries that are written out are right, and the others are zero. -/
theorem crcTable_toBitVec (i : UInt8) :
    (crcTable i.toUInt32).toBitVec = if crcKnown i then entry crcPoly i else 0 := by
  split
  case isTrue h =>
    have hall : ∀ n : Fin 16,
        (crcTable (UInt8.ofNat n).toUInt32).toBitVec = entry crcPoly (UInt8.ofNat n) := by
      decide
    have hlt : i.toNat < 16 := by simpa [crcKnown, crcTableInit] using h
    simpa using hall ⟨i.toNat, hlt⟩
  case isFalse h =>
    have hge : crcTableInit.length ≤ i.toUInt32.toNat := by simpa [crcKnown] using h
    rw [crcTable, List.getD_eq_getElem?_getD, List.getElem?_eq_none hge]
    rfl

theorem crcIndex_eq (crc : UInt32) (byte : UInt8) :
    (crc ^^^ byte.toUInt32) &&& 0xFF = (index crc.toBitVec byte).toUInt32 := by
  apply UInt32.toBitVec_inj.mp
  apply BitVec.eq_of_getLsbD_eq
  intro i hi
  have hmask : (255#32).getLsbD i = decide (i < 8) := by
    rw [BitVec.getLsbD_ofNat, show (255 : Nat) = 2 ^ 8 - 1 by rfl, Nat.testBit_two_pow_sub_one]
    simp [hi]
  simp only [index, UInt32.toBitVec_and, UInt32.toBitVec_xor, UInt8.toBitVec_toUInt32,
    UInt32.toBitVec_ofNat, BitVec.getLsbD_and, hmask]
  by_cases h8 : i < 8
  · simp [h8, hi]
  · simp [h8, BitVec.getLsbD_of_ge byte.toBitVec i (by omega)]

theorem crcStep_toBitVec (crc : UInt32) (byte : UInt8) :
    (crcStep crc byte).toBitVec =
      tableStep (fun i => (crcTable i.toUInt32).toBitVec) crc.toBitVec byte := by
  rw [crcStep, crcIndex_eq, UInt32.toBitVec_xor, UInt32.toBitVec_shiftRight, tableStep]
  rfl

/-- The loop of `MM_CalculateCRC32` is a run with the partial table. -/
theorem calculateCRC32_toBitVec (bytes : List UInt8) (initial : UInt32) :
    (calculateCRC32 (some bytes) initial).toBitVec =
      bytes.foldl (tableStep fun i => (crcTable i.toUInt32).toBitVec) initial.toBitVec := by
  have hloop : (calculateCRC32 (some bytes) initial) = bytes.foldl crcStep initial := by
    cases bytes <;> rfl
  rw [hloop]
  induction bytes generalizing initial with
  | nil => rfl
  | cons b bs ih =>
      rw [List.foldl_cons, List.foldl_cons, ← crcStep_toBitVec]
      exact ih (crcStep initial b) (by cases bs <;> rfl)

/-! ## Errors -/

/-- The result of `MM_CalculateCRC32` is the CRC-32 of the message with its
error pattern added. -/
theorem calculateCRC32_eq_register_add_misses (bytes : List UInt8) (initial : UInt32) :
    calculateCRC32 (some bytes) initial =
      crcRegister initial (bytes.zipWith (· ^^^ ·) (crcMisses initial bytes)) := by
  apply UInt32.toBitVec_inj.mp
  rw [calculateCRC32_toBitVec, foldl_tableStep (by decide) crcTable_toBitVec]
  rfl

/-- Errors can cancel: the result is right exactly when the error pattern has a CRC of zero
from a zero register. -/
theorem calculateCRC32_eq_iff (bytes : List UInt8) (initial : UInt32) :
    calculateCRC32 (some bytes) initial = crcRegister initial bytes ↔
      crcRegister 0 (crcMisses initial bytes) = 0 := by
  rw [← UInt32.toBitVec_inj, calculateCRC32_toBitVec, ← UInt32.toBitVec_inj]
  exact foldl_tableStep_eq_register_iff (by decide) crcTable_toBitVec initial.toBitVec bytes

-- every index of this message but one has no entry, and the result is still right
example : crcMisses 0 [0x10, 0x64, 0x10, 0xB7, 0x1D] = [0x10, 0x64, 0x10, 0xB7, 0x1D] ∧
    calculateCRC32 (some [0x10, 0x64, 0x10, 0xB7, 0x1D]) 0 =
      crcRegister 0 [0x10, 0x64, 0x10, 0xB7, 0x1D] := by
  decide +kernel

/-! ## Correctness -/

/-- Every byte of the message has an index whose entry is written out: the low byte of the CRC-32
register of the bytes before it, changed by the byte, is below 16. -/
def InTable (initial : UInt32) (bytes : List UInt8) : Prop :=
  ∀ pre b post, bytes = pre ++ b :: post → (crcRegister initial pre ^^^ b.toUInt32) &&& 0xFF < 16

theorem inTable_iff {initial : UInt32} {bytes : List UInt8} :
    InTable initial bytes ↔ ∀ i : Fin bytes.length,
      (crcRegister initial (bytes.take i) ^^^ bytes[i].toUInt32) &&& 0xFF < 16 := by
  constructor
  · intro h i
    exact h _ _ (bytes.drop (i + 1)) (by simp)
  · rintro h pre b post rfl
    simpa using h ⟨pre.length, by simp⟩

instance (initial : UInt32) (bytes : List UInt8) : Decidable (InTable initial bytes) :=
  decidable_of_iff _ inTable_iff.symm

/-- One byte more. -/
theorem inTable_concat {initial : UInt32} {bytes : List UInt8} {b : UInt8} :
    InTable initial (bytes ++ [b]) ↔
      InTable initial bytes ∧ (crcRegister initial bytes ^^^ b.toUInt32) &&& 0xFF < 16 := by
  constructor
  · intro h
    refine ⟨?_, h bytes b [] rfl⟩
    rintro pre c post rfl
    exact h pre c (post ++ [b]) (by simp)
  · rintro ⟨h, hb⟩ pre c post heq
    obtain rfl | ⟨post, d, rfl⟩ := List.eq_nil_or_concat' post
    · obtain ⟨rfl, hc⟩ := List.append_inj' heq rfl
      obtain rfl := List.singleton_inj.mp hc
      exact hb
    · rw [← List.cons_append, ← List.append_assoc] at heq
      exact h pre c post (List.append_inj' heq rfl).1

theorem crcKnown_index_iff (crc : UInt32) (b : UInt8) :
    crcKnown (index crc.toBitVec b) ↔ (crc ^^^ b.toUInt32) &&& 0xFF < 16 := by
  rw [crcIndex_eq, UInt32.lt_iff_toNat_lt, UInt8.toNat_toUInt32]
  exact decide_eq_true_iff

/-- All prefixes of a message get their CRC-32 exactly where no index is without an entry. -/
theorem calculateCRC32_prefixes_iff (initial : UInt32) (bytes : List UInt8) :
    (∀ pre, pre <+: bytes → calculateCRC32 (some pre) initial = crcRegister initial pre) ↔
      InTable initial bytes := by
  simp only [← UInt32.toBitVec_inj, calculateCRC32_toBitVec, InTable, ← crcKnown_index_iff]
  exact foldl_prefixes_iff (by decide) (by decide) crcTable_toBitVec rfl initial.toBitVec bytes

theorem calculateCRC32_of_inTable {initial : UInt32} {bytes : List UInt8}
    (h : InTable initial bytes) :
    calculateCRC32 (some bytes) initial = crcRegister initial bytes :=
  (calculateCRC32_prefixes_iff initial bytes).mpr h bytes List.prefix_rfl

/-- **When the CRC is right.** Both functions give the CRC-32 of a message none of whose indices
is without an entry. Of any other message a prefix gets a wrong value. -/
theorem calculateCRC32_correct (bytes : List UInt8) (initial : UInt32) (out : UInt32) :
    (InTable initial bytes → calculateCRC32 (some bytes) initial = crcRegister initial bytes) ∧
    (InTable 0xFFFFFFFF bytes →
      calculateCRC (some bytes) (some out) = (CFE.success, some (crcRegister 0xFFFFFFFF bytes))) ∧
    (¬ InTable initial bytes →
      ∃ pre, pre <+: bytes ∧ calculateCRC32 (some pre) initial ≠ crcRegister initial pre) := by
  refine ⟨calculateCRC32_of_inTable, fun h => ?_, fun h => ?_⟩
  · rw [calculateCRC, calculateCRC32_of_inTable h]
  · rw [← calculateCRC32_prefixes_iff] at h
    simpa only [not_forall, exists_prop] using h

theorem calculateCRC32_correct_four :
    calculateCRC32 (some [0xFE, 0x6B, 0xE0, 0x27]) 0xFFFFFFFF =
        crcRegister 0xFFFFFFFF [0xFE, 0x6B, 0xE0, 0x27] ∧
      calculateCRC (some [0xFE, 0x6B, 0xE0, 0x27]) (some 0) =
        (CFE.success, some (crcRegister 0xFFFFFFFF [0xFE, 0x6B, 0xE0, 0x27])) ∧
      ¬ InTable 0 [0x10] ∧
      ∃ pre, pre <+: [0x10] ∧ calculateCRC32 (some pre) 0 ≠ crcRegister 0 pre :=
  have hknown : InTable 0xFFFFFFFF [0xFE, 0x6B, 0xE0, 0x27] := by decide +kernel
  have hmissing : ¬ InTable 0 [0x10] := by decide +kernel
  ⟨(calculateCRC32_correct _ _ 0).1 hknown, (calculateCRC32_correct _ 0 0).2.1 hknown, hmissing,
    (calculateCRC32_correct [0x10] 0 0).2.2 hmissing⟩

/-- A single zero byte already meets a missing entry. -/
theorem calculateCRC32_zero_byte :
    calculateCRC32 (some [0x00]) 0xFFFFFFFF ≠ crcRegister 0xFFFFFFFF [0x00] := by
  decide

-- the check value of CRC-32, before its final inversion
example : crcRegister 0xFFFFFFFF (CString.ascii "123456789") = ~~~0xCBF43926 := by
  decide +kernel

end MM
