-- SUMMARY: Rounding an address up to a boundary, and the alignment check of the common library.
import CfsMmFuzzer.Base.RoundUp
import CfsMmFuzzer.Memory.RegionMap

/-!
# Alignment

`MM_ALIGN_TO_BOUNDARY` is an untyped macro: its mask has the type of the
boundary. It rounds up modulo the size of that type, so a boundary in a
`uint32_t` loses the high half of an address. `MM_IsValidAlignment` takes its
remainder in 64 bits and does not.
-/

namespace MM

open RoundUp

/-! ## The mask -/

namespace Boundary

/-- The number of bits of the type that holds the boundary. -/
def width : Boundary → Nat
  | uint32 _ => 32
  | uint64 _ => 64

def toNat (boundary : Boundary) : Nat := boundary.toUInt64.toNat

variable {boundary : Boundary} {k : Nat}

theorem width_bounds (boundary : Boundary) : 32 ≤ boundary.width ∧ boundary.width ≤ 64 := by
  cases boundary <;> simp [width]

theorem two_pow_width_bounds (boundary : Boundary) :
    2 ^ 32 ≤ 2 ^ boundary.width ∧ 2 ^ boundary.width ≤ 2 ^ 64 := by
  obtain ⟨hge, hle⟩ := boundary.width_bounds
  exact ⟨Nat.pow_le_pow_right (by decide) hge, Nat.pow_le_pow_right (by decide) hle⟩

theorem toNat_lt (boundary : Boundary) : boundary.toNat < 2 ^ boundary.width := by
  cases boundary with
  | uint32 value => exact value.toNat_lt
  | uint64 value => exact value.toNat_lt

theorem lt_width (h : boundary.toNat = 2 ^ k) : k < boundary.width :=
  (Nat.pow_lt_pow_iff_right (by decide)).mp (h ▸ boundary.toNat_lt)

theorem toNat_dvd (h : boundary.toNat.isPowerOfTwo) : boundary.toNat ∣ 2 ^ boundary.width := by
  obtain ⟨k, hk⟩ := h
  rw [hk]
  exact Nat.pow_dvd_pow 2 (lt_width hk).le

/-- The mask has as many bits as the type of the boundary. -/
theorem toNat_mask (h : boundary.toNat = 2 ^ k) :
    boundary.mask.toNat = 2 ^ boundary.width - 2 ^ k := by
  have hpos : 0 < 2 ^ k := Nat.two_pow_pos k
  have hlt := boundary.toNat_lt
  rw [h] at hlt
  -- the complement is taken before the conversion, so it has no bits above the width
  cases boundary with
  | uint32 value =>
      have hvalue : value.toNat = 2 ^ k := h
      rw [mask, UInt32.toNat_toUInt64, UInt32.toNat_not, UInt32.toNat_sub, hvalue]
      simp only [width, UInt32.size, UInt32.toNat_one] at hlt ⊢
      omega
  | uint64 value =>
      have hvalue : value.toNat = 2 ^ k := h
      rw [mask, UInt64.toNat_not, UInt64.toNat_sub, hvalue]
      simp only [width, UInt64.size, UInt64.toNat_one] at hlt ⊢
      omega

end Boundary

/-! ## Rounding up -/

section PowerOfTwo

variable {addr : UInt64} {boundary : Boundary}

/-- What the macro computes: the least multiple, as far as the type of the boundary holds it. -/
theorem toNat_alignToBoundary (hpow : boundary.toNat.isPowerOfTwo)
    (hsum : addr.toNat + boundary.toNat - 1 < 2 ^ 64) :
    (alignToBoundary addr boundary).toNat =
      roundUp boundary.toNat addr.toNat % 2 ^ boundary.width := by
  have hpos := Nat.pos_of_isPowerOfTwo hpow
  obtain ⟨k, hk⟩ := hpow
  have hfirst : (addr + boundary.toUInt64 - 1).toNat = addr.toNat + boundary.toNat - 1 := by
    rw [WrapRange.toNat_add_sub_one]
    exact WrapRange.lastAddr_of_le hpos (Nat.le_of_pred_lt hsum)
  rw [alignToBoundary, UInt64.toNat_and, hfirst, Boundary.toNat_mask hk, hk]
  exact add_sub_one_and_mask (Boundary.lt_width hk).le addr.toNat

/-- **Where the macro rounds up**: one boundary above the address has to fit in
the type of the boundary. -/
theorem isLeast_alignToBoundary_iff (hpow : boundary.toNat.isPowerOfTwo)
    (hsum : addr.toNat + boundary.toNat - 1 < 2 ^ 64) :
    IsLeast {m | boundary.toNat ∣ m ∧ addr.toNat ≤ m} (alignToBoundary addr boundary).toNat ↔
      addr.toNat + boundary.toNat ≤ 2 ^ boundary.width := by
  rw [toNat_alignToBoundary hpow hsum]
  exact isLeast_roundUp_mod_iff (Nat.pos_of_isPowerOfTwo hpow) (Boundary.toNat_dvd hpow)
    (Nat.two_pow_pos _)

/-- The result is a multiple of the boundary, also where the sum wraps around. -/
theorem dvd_alignToBoundary (hpow : boundary.toNat.isPowerOfTwo) (addr : UInt64) :
    boundary.toNat ∣ (alignToBoundary addr boundary).toNat := by
  obtain ⟨k, hk⟩ := hpow
  rw [alignToBoundary, UInt64.toNat_and, Boundary.toNat_mask hk, hk,
    and_two_pow_sub_two_pow (Boundary.lt_width hk).le]
  exact Nat.dvd_mul_left _ _

theorem alignToBoundary_lt (hpow : boundary.toNat.isPowerOfTwo) (addr : UInt64) :
    (alignToBoundary addr boundary).toNat < 2 ^ boundary.width := by
  obtain ⟨k, hk⟩ := hpow
  rw [alignToBoundary, UInt64.toNat_and, Boundary.toNat_mask hk]
  exact Nat.and_le_right.trans_lt (Nat.sub_lt (Nat.two_pow_pos _) (Nat.two_pow_pos k))

/-- An aligned address that the type of the boundary holds is left alone. -/
theorem alignToBoundary_of_dvd (hpow : boundary.toNat.isPowerOfTwo)
    (hdvd : boundary.toNat ∣ addr.toNat) (hlt : addr.toNat < 2 ^ boundary.width) :
    alignToBoundary addr boundary = addr := by
  have hpos := Nat.pos_of_isPowerOfTwo hpow
  have hround : roundUp boundary.toNat addr.toNat = addr.toNat := roundUp_of_dvd hpos hdvd
  have hfit := add_le_of_dvd_of_lt hdvd (Boundary.toNat_dvd hpow) hlt
  have hwidth := boundary.two_pow_width_bounds.2
  apply UInt64.toNat_inj.mp
  rw [toNat_alignToBoundary hpow (by omega), hround, Nat.mod_eq_of_lt hlt]

/-- Rounding twice is rounding once, whatever the address. -/
theorem alignToBoundary_idempotent (hpow : boundary.toNat.isPowerOfTwo) (addr : UInt64) :
    alignToBoundary (alignToBoundary addr boundary) boundary = alignToBoundary addr boundary :=
  alignToBoundary_of_dvd hpow (dvd_alignToBoundary hpow addr) (alignToBoundary_lt hpow addr)

/-- Addresses of the memory map are low enough for a boundary of either type. -/
theorem isLeast_alignToBoundary_of_mapped {memType : UInt8} {n : Nat}
    (hpow : boundary.toNat.isPowerOfTwo) (hmapped : CFS.Mapped memType addr.toNat n) :
    IsLeast {m | boundary.toNat ∣ m ∧ addr.toNat ≤ m} (alignToBoundary addr boundary).toNat := by
  have haddr : addr.toNat + n ≤ 2 ^ 31 := hmapped.add_le
  -- a power of two below `2 ^ w` is at most half of it
  have htwice := add_le_of_dvd_of_lt (Nat.dvd_refl _) (Boundary.toNat_dvd hpow) boundary.toNat_lt
  have hwidth := boundary.two_pow_width_bounds
  have hfit : addr.toNat + boundary.toNat ≤ 2 ^ boundary.width := by omega
  exact (isLeast_alignToBoundary_iff hpow (by omega)).mpr hfit

end PowerOfTwo

/-! ## The alignment check -/

/-- The alignment that `MM_IsValidAlignment` asks for each data size. -/
def alignments : List (Nat × UInt8) := [(1, mem8), (2, mem16), (4, mem32)]

theorem isValidAlignment_iff_dvd {alignment : Nat} {dataSize : UInt8}
    (h : (alignment, dataSize) ∈ alignments) (addr : UInt64) :
    isValidAlignment addr dataSize = true ↔ alignment ∣ addr.toNat := by
  simp only [alignments, List.mem_cons, List.not_mem_nil, or_false, Prod.mk.injEq] at h
  obtain ⟨rfl, rfl⟩ | ⟨rfl, rfl⟩ | ⟨rfl, rfl⟩ := h
  · simp [isValidAlignment]
  · simp [isValidAlignment, mem8, mem16, ← UInt64.toNat_inj, Nat.dvd_iff_mod_eq_zero]
  · simp [isValidAlignment, mem8, mem16, mem32, ← UInt64.toNat_inj, Nat.dvd_iff_mod_eq_zero]

/-- What rounding an address up is for. -/
structure RoundsUp (addr : UInt64) (boundary : Boundary) : Prop where
  isLeast : IsLeast {m | boundary.toNat ∣ m ∧ addr.toNat ≤ m} (alignToBoundary addr boundary).toNat
  idempotent :
    alignToBoundary (alignToBoundary addr boundary) boundary = alignToBoundary addr boundary
  aligned : ∀ dataSize, (boundary.toNat, dataSize) ∈ alignments →
    isValidAlignment (alignToBoundary addr boundary) dataSize = true

/-- **The macro rounds an address up** exactly where the type of the boundary
holds one boundary more than the address. -/
theorem roundsUp_iff {addr : UInt64} {boundary : Boundary}
    (hpow : boundary.toNat.isPowerOfTwo) (hsum : addr.toNat + boundary.toNat - 1 < 2 ^ 64) :
    RoundsUp addr boundary ↔ addr.toNat + boundary.toNat ≤ 2 ^ boundary.width := by
  rw [← isLeast_alignToBoundary_iff hpow hsum]
  constructor
  · intro h
    exact h.isLeast
  · intro hleast
    refine ⟨hleast, alignToBoundary_idempotent hpow addr, ?_⟩
    intro dataSize hsize
    exact (isValidAlignment_iff_dvd hsize _).mpr (dvd_alignToBoundary hpow addr)

theorem roundsUp_iff_uint64 :
    (Boundary.uint64 4).toNat.isPowerOfTwo ∧
    (0x100000001 : UInt64).toNat + (Boundary.uint64 4).toNat - 1 < 2 ^ 64 ∧
    RoundsUp 0x100000001 (.uint64 4) :=
  ⟨by decide, by decide, (roundsUp_iff (by decide) (by decide)).mpr (by decide)⟩

/-- An address above `2 ^ 32` loses its high half to a boundary in a `uint32_t`. -/
theorem not_roundsUp_uint32 :
    (Boundary.uint32 4).toNat.isPowerOfTwo ∧
    (0x100000001 : UInt64).toNat + (Boundary.uint32 4).toNat - 1 < 2 ^ 64 ∧
    alignToBoundary 0x100000001 (.uint32 4) = 4 ∧
    ¬ RoundsUp 0x100000001 (.uint32 4) := by
  have hvalue : alignToBoundary 0x100000001 (.uint32 4) = 4 := by decide
  refine ⟨by decide, by decide, hvalue, ?_⟩
  intro h
  have hle := h.isLeast.1.2
  rw [hvalue] at hle
  exact absurd hle (by decide)

end MM
