-- SUMMARY: Upper-case hexadecimal numerals with leading zeros, and reading them back.
import Mathlib.Data.Nat.Digits.Lemmas
import Mathlib.Tactic.IntervalCases

/-!
# Hexadecimal numerals

`numeral width n` is what `printf("%0*X", width, n)` prints for a positive
width, in ASCII. `read` takes it back.
-/

namespace Hex

/-- The digits `0`-`9` and `A`-`F`. -/
def digit (d : Nat) : UInt8 := if d < 10 then UInt8.ofNat (0x30 + d) else UInt8.ofNat (0x37 + d)

def IsDigit (c : UInt8) : Prop := (0x30 ≤ c ∧ c ≤ 0x39) ∨ (0x41 ≤ c ∧ c ≤ 0x46)

instance (c : UInt8) : Decidable (IsDigit c) := inferInstanceAs (Decidable (_ ∨ _))

/-- The value of a digit. -/
def value (c : UInt8) : Nat := if c < 0x41 then c.toNat - 0x30 else c.toNat - 0x37

def numeral (width n : Nat) : List UInt8 :=
  ((Nat.digits 16 n).reverse.map digit).leftpad width (digit 0)

/-- The number that a list of digits stands for. -/
def read (s : List UInt8) : Nat := Nat.ofDigits 16 (s.map value).reverse

theorem isDigit_digit {d : Nat} (h : d < 16) : IsDigit (digit d) := by
  interval_cases d <;> decide

theorem value_digit {d : Nat} (h : d < 16) : value (digit d) = d := by
  interval_cases d <;> rfl

theorem map_value_map_digit {ds : List Nat} (h : ∀ d ∈ ds, d < 16) :
    (ds.map digit).map value = ds := by
  have hid : ∀ d ∈ ds, (value ∘ digit) d = id d := fun d hd => value_digit (h d hd)
  rw [List.map_map, List.map_congr_left hid, List.map_id]

/-- A numeral is made of digits, zeros in front of those of the number. -/
theorem exists_numeral_eq (width n : Nat) :
    ∃ zeros, numeral width n = (List.replicate zeros 0 ++ (Nat.digits 16 n).reverse).map digit ∧
      ∀ d ∈ List.replicate zeros 0 ++ (Nat.digits 16 n).reverse, d < 16 := by
  refine ⟨width - (Nat.digits 16 n).length, ?_, ?_⟩
  · simp [numeral, List.leftpad]
  · intro d hd
    obtain hzero | hdigit := List.mem_append.mp hd
    · rw [List.eq_of_mem_replicate hzero]
      decide
    · exact Nat.digits_lt_base (by decide) (List.mem_reverse.mp hdigit)

theorem read_numeral (width n : Nat) : read (numeral width n) = n := by
  obtain ⟨zeros, heq, hlt⟩ := exists_numeral_eq width n
  rw [read, heq, map_value_map_digit hlt, List.reverse_append, List.reverse_reverse,
    List.reverse_replicate, Nat.ofDigits_append_replicate_zero, Nat.ofDigits_digits]

theorem isDigit_of_mem_numeral {width n : Nat} {c : UInt8} (h : c ∈ numeral width n) :
    IsDigit c := by
  obtain ⟨zeros, heq, hlt⟩ := exists_numeral_eq width n
  rw [heq] at h
  obtain ⟨d, hd, rfl⟩ := List.mem_map.mp h
  exact isDigit_digit (hlt d hd)

theorem length_numeral (width n : Nat) :
    (numeral width n).length = max width (Nat.digits 16 n).length := by
  simp only [numeral, List.leftpad, List.length_append, List.length_replicate, List.length_map,
    List.length_reverse]
  omega

/-- A byte takes exactly two digits. -/
theorem length_numeral_byte (b : UInt8) : (numeral 2 b.toNat).length = 2 := by
  have hlen : (Nat.digits 16 b.toNat).length ≤ 2 :=
    (Nat.digits_length_le_iff (by decide) _).mpr b.toNat_lt
  rw [length_numeral]
  omega

end Hex
