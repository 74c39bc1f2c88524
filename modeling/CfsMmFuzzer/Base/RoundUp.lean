-- SUMMARY: Rounding a number up to a multiple, and what a mask of fixed width computes of it.
import Mathlib.Algebra.Order.Floor.Div
import Mathlib.Algebra.Order.Group.Nat
import Mathlib.Data.Nat.Bitwise
import Mathlib.Order.Bounds.Basic

/-!
# Rounding up

The least multiple of `b` that is at least `a`. For a power of two, adding
`b - 1` and clearing the low bits with a mask computes it, modulo `2 ^ w` when
the mask has `w` bits. The remainder still is the least multiple exactly when
the multiple is below the modulus.
-/

/-- The least multiple of `b` that is at least `a`. -/
def roundUp (b a : Nat) : Nat := b * (a ⌈/⌉ b)

namespace RoundUp

variable {a b m : Nat}

theorem dvd_roundUp (b a : Nat) : b ∣ roundUp b a := Nat.dvd_mul_right b _

theorem isLeast_roundUp (hb : 0 < b) (a : Nat) : IsLeast {m | b ∣ m ∧ a ≤ m} (roundUp b a) := by
  refine ⟨⟨dvd_roundUp b a, le_smul_ceilDiv hb⟩, ?_⟩
  intro m hm
  obtain ⟨⟨c, rfl⟩, ham⟩ := hm
  exact Nat.mul_le_mul_left b ((ceilDiv_le_iff_le_mul hb).mpr ham)

/-- A multiple is its own least multiple. -/
theorem roundUp_of_dvd (hb : 0 < b) (h : b ∣ a) : roundUp b a = a :=
  (isLeast_roundUp hb a).unique ⟨⟨h, le_rfl⟩, fun _ hm => hm.2⟩

/-- A multiple below another one leaves room for one `b` more. -/
theorem add_le_of_dvd_of_lt (ha : b ∣ a) (hm : b ∣ m) (hlt : a < m) : a + b ≤ m := by
  have hroom : b ≤ m - a := Nat.le_of_dvd (Nat.sub_pos_of_lt hlt) (Nat.dvd_sub hm ha)
  omega

/-- The rounded number is below a multiple while there is room for one `b` more. -/
theorem roundUp_lt_iff (hb : 0 < b) (hm : b ∣ m) : roundUp b a < m ↔ a + b ≤ m := by
  have hleast := isLeast_roundUp hb a
  constructor
  · intro hlt
    have hle : a ≤ roundUp b a := hleast.1.2
    have hroom := add_le_of_dvd_of_lt (dvd_roundUp b a) hm hlt
    omega
  · intro hle
    have hbelow : roundUp b a ≤ m - b :=
      hleast.2 ⟨Nat.dvd_sub hm (Nat.dvd_refl b), by omega⟩
    omega

/-- **A remainder of the rounded number** is the least multiple exactly when nothing is lost. -/
theorem isLeast_roundUp_mod_iff (hb : 0 < b) (hm : b ∣ m) (hpos : 0 < m) :
    IsLeast {m | b ∣ m ∧ a ≤ m} (roundUp b a % m) ↔ a + b ≤ m := by
  rw [← roundUp_lt_iff hb hm]
  constructor
  · intro hmod
    rw [← hmod.unique (isLeast_roundUp hb a)]
    exact Nat.mod_lt _ hpos
  · intro hlt
    rw [Nat.mod_eq_of_lt hlt]
    exact isLeast_roundUp hb a

/-! ## With a mask -/

/-- Rounding up as programs compute it. -/
theorem roundUp_eq (b a : Nat) : roundUp b a = (a + b - 1) / b * b := by
  rw [roundUp, Nat.ceilDiv_eq_add_pred_div, Nat.mul_comm]

/-- A mask of `w` bits whose low `k` bits are clear. -/
theorem and_two_pow_sub_two_pow {k w : Nat} (hk : k ≤ w) (x : Nat) :
    x &&& (2 ^ w - 2 ^ k) = x % 2 ^ w / 2 ^ k * 2 ^ k := by
  have hpos : 0 < 2 ^ k := Nat.two_pow_pos k
  have hlow : 2 ^ k - 1 < 2 ^ w := by
    have hle : 2 ^ k ≤ 2 ^ w := Nat.pow_le_pow_right (by decide) hk
    omega
  have hmask : 2 ^ w - 2 ^ k = 2 ^ w - (2 ^ k - 1 + 1) := by rw [Nat.sub_add_cancel hpos]
  -- bit `i` of the mask is set for `k ≤ i < w`
  apply Nat.eq_of_testBit_eq
  intro i
  rw [Nat.testBit_and, hmask, Nat.testBit_two_pow_sub_succ hlow, Nat.testBit_two_pow_sub_one,
    Nat.testBit_mul_two_pow, Nat.testBit_div_two_pow, Nat.testBit_mod_two_pow]
  by_cases hi : k ≤ i
  · have hbit : i - k + k = i := Nat.sub_add_cancel hi
    simp [hi, hbit, Nat.not_lt.mpr hi, Bool.and_comm]
  · simp [hi, Nat.lt_of_not_le hi]

/-- Truncation and rounding down to multiples commute. -/
theorem mod_div_mul (hm : b ∣ m) (x : Nat) : x % m / b * b = x / b * b % m := by
  obtain ⟨c, rfl⟩ := hm
  rw [Nat.mod_mul_right_div_self, ← Nat.mul_mod_mul_right, Nat.mul_comm c b]

/-- **The mask rounds up modulo its width.** -/
theorem add_sub_one_and_mask {k w : Nat} (hk : k ≤ w) (a : Nat) :
    (a + 2 ^ k - 1) &&& (2 ^ w - 2 ^ k) = roundUp (2 ^ k) a % 2 ^ w := by
  rw [and_two_pow_sub_two_pow hk, mod_div_mul (Nat.pow_dvd_pow 2 hk), roundUp_eq]

end RoundUp
