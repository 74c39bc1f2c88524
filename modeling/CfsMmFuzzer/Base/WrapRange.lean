-- SUMMARY: Range tests in modular address arithmetic, against exact containment of intervals.
import Mathlib.Algebra.Order.Group.Nat
import Mathlib.Order.Interval.Set.Basic
import Mathlib.Tactic.Common

/-!
# Wrapping range tests

A common way to test whether the `n` cells from `a` on lie between `lo` and `hi`
compares the first and the last of them with the bounds, where the last one,
`a + n - 1`, is computed modulo the size `M` of the address space. The test is
exact unless that computation wraps, which it does in two ways: past the top of
the address space, and for an empty range.
-/

namespace WrapRange

/-- `a + n - 1` modulo `M`. -/
def lastAddr (M a n : Nat) : Nat := (a + n + (M - 1)) % M

/-- The test on the two ends. -/
def Accepts (M lo hi a n : Nat) : Prop := lo ≤ a ∧ lastAddr M a n ≤ hi

/-- The cells `a, ..., a + n - 1` lie between `lo` and `hi`, in unbounded integers. -/
def Within (lo hi a n : Nat) : Prop := lo ≤ a ∧ a + n ≤ hi + 1

instance (M lo hi a n : Nat) : Decidable (Accepts M lo hi a n) :=
  inferInstanceAs (Decidable (_ ∧ _))

instance (lo hi a n : Nat) : Decidable (Within lo hi a n) :=
  inferInstanceAs (Decidable (_ ∧ _))

variable {M lo hi a n : Nat}

theorem within_iff_subset (hn : 0 < n) :
    Within lo hi a n ↔ Set.Ico a (a + n) ⊆ Set.Icc lo hi := by
  constructor
  · rintro ⟨hlo, hhi⟩ x ⟨hax, hxn⟩
    exact ⟨by omega, by omega⟩
  · intro h
    have hfirst := h (show a ∈ Set.Ico a (a + n) from ⟨by omega, by omega⟩)
    have hlast := h (show a + n - 1 ∈ Set.Ico a (a + n) from ⟨by omega, by omega⟩)
    exact ⟨hfirst.1, by have := hlast.2; omega⟩

/-- A non-empty range below the top of the address space does not wrap. -/
theorem lastAddr_of_le (hn : 0 < n) (h : a + n ≤ M) : lastAddr M a n = a + n - 1 := by
  rw [lastAddr, show a + n + (M - 1) = (a + n - 1) + M by omega, Nat.add_mod_right]
  exact Nat.mod_eq_of_lt (by omega)

/-- A range past the top starts over at the bottom. -/
theorem lastAddr_of_gt (h : M < a + n) (h' : a + n ≤ 2 * M) : lastAddr M a n = a + n - 1 - M := by
  rw [lastAddr, show a + n + (M - 1) = (a + n - 1 - M) + M + M by omega, Nat.add_mod_right,
    Nat.add_mod_right]
  exact Nat.mod_eq_of_lt (by omega)

/-- An empty range ends before it starts. -/
theorem lastAddr_zero (ha : 0 < a) (h : a ≤ M) : lastAddr M a 0 = a - 1 := by
  rw [lastAddr, show a + 0 + (M - 1) = (a - 1) + M by omega, Nat.add_mod_right]
  exact Nat.mod_eq_of_lt (by omega)

/-- Without a wrap the test is exact. -/
theorem accepts_iff_within (hn : 0 < n) (h : a + n ≤ M) :
    Accepts M lo hi a n ↔ Within lo hi a n := by
  rw [Accepts, Within, lastAddr_of_le hn h]
  omega

/-- A range past the top is accepted as soon as it starts above the lower bound
and its wrapped end is below the upper one. -/
theorem accepts_iff_of_gt (h : M < a + n) (h' : a + n ≤ 2 * M) :
    Accepts M lo hi a n ↔ lo ≤ a ∧ a + n - 1 - M ≤ hi := by
  rw [Accepts, lastAddr_of_gt h h']

/-- An empty range may also start one past the upper bound. -/
theorem accepts_zero_iff (hlo : 0 < lo) (ha : a < M) :
    Accepts M lo hi a 0 ↔ lo ≤ a ∧ a ≤ hi + 1 := by
  rw [Accepts]
  constructor
  · rintro ⟨h1, h2⟩
    rw [lastAddr_zero (by omega) (by omega)] at h2
    exact ⟨h1, by omega⟩
  · rintro ⟨h1, h2⟩
    rw [lastAddr_zero (by omega) (by omega)]
    exact ⟨h1, by omega⟩

/-- The 64-bit computation of the last address. -/
theorem toNat_add_sub_one (a n : UInt64) :
    (a + n - 1).toNat = lastAddr (2 ^ 64) a.toNat n.toNat := by
  rw [lastAddr, UInt64.toNat_sub, UInt64.toNat_add, UInt64.toNat_one]
  omega

end WrapRange
