-- SUMMARY: The memory map as a set of exact regions, and how the wrapping checks of the code relate to it.
import CfsMmFuzzer.Base.WrapRange
import CfsMmFuzzer.Common.Utils

/-!
# The memory map

`MemoryRegion.Covers` and `Mapped` say in unbounded integers what the address
check is for: a range of cells lies inside one region of a type. The check
itself adds in 64 bits, so it agrees with `Mapped` only where the range is
non-empty and ends below `2 ^ 64`. Where it does not, `Misjudged` lists the
inputs on which the region validator goes wrong.
-/

namespace CFS

open WrapRange

/-- The cells `a, ..., a + n - 1` lie inside the region, and it is of type `memType`. -/
def MemoryRegion.Covers (region : MemoryRegion) (memType : UInt8) (a n : Nat) : Prop :=
  region.memType = memType ∧ Within region.startAddr.toNat region.endAddr.toNat a n

/-- The cells lie inside one region of the memory map. -/
def Mapped (memType : UInt8) (a n : Nat) : Prop :=
  ∃ region ∈ memoryRegions, region.Covers memType a n

/-- The range starts at an address of the region and does not leave it. Unlike
`Covers` this keeps an empty range off the address behind the region. -/
def MemoryRegion.Contains (region : MemoryRegion) (memType : UInt8) (a n : Nat) : Prop :=
  region.Covers memType a n ∧ a ≤ region.endAddr.toNat

instance (region : MemoryRegion) (memType : UInt8) (a n : Nat) :
    Decidable (region.Covers memType a n) :=
  inferInstanceAs (Decidable (_ ∧ _))

instance (memType : UInt8) (a n : Nat) : Decidable (Mapped memType a n) :=
  inferInstanceAs (Decidable (∃ region ∈ memoryRegions, region.Covers memType a n))

/-- A non-empty range is mapped when one region of the type has all of its cells. -/
theorem mapped_iff_subset {memType : UInt8} {a n : Nat} (hn : 0 < n) :
    Mapped memType a n ↔ ∃ region ∈ memoryRegions, region.memType = memType ∧
      Set.Ico a (a + n) ⊆ Set.Icc region.startAddr.toNat region.endAddr.toNat := by
  simp only [Mapped, MemoryRegion.Covers, within_iff_subset hn]

/-! ## The shape of the map -/

/-- Every region starts above address 0 and ends in the low half of the 32-bit
address space. -/
theorem memoryRegions_bounds {region : MemoryRegion} (h : region ∈ memoryRegions) :
    0 < region.startAddr.toNat ∧ region.startAddr.toNat ≤ region.endAddr.toNat ∧
      region.endAddr.toNat < 2 ^ 31 := by
  revert region
  decide

/-- Every region ends above the largest size that can be loaded. -/
theorem memoryRegions_endAddr_ge {region : MemoryRegion} (h : region ∈ memoryRegions) :
    2 ^ 20 ≤ region.endAddr.toNat := by
  revert region
  decide

/-- Regions of one type are all writable or all read-only. -/
theorem writable_eq_of_memType_eq {r s : MemoryRegion} (hr : r ∈ memoryRegions)
    (hs : s ∈ memoryRegions) (h : r.memType = s.memType) : r.writable = s.writable := by
  have hall : ∀ r ∈ memoryRegions, ∀ s ∈ memoryRegions,
      r.memType = s.memType → r.writable = s.writable := by decide
  exact hall r hr s hs h

/-- Regions of the loadable types are writable. -/
theorem writable_of_loadable {region : MemoryRegion} (h : region ∈ memoryRegions)
    (ht : region.memType = MM.ram ∨ region.memType = MM.eeprom) : region.writable = true := by
  revert region
  decide

/-! ## The check against the exact map -/

theorem MemoryRegion.accepts_iff {region : MemoryRegion} {addr : UInt64} {memType : UInt8}
    {size : UInt32} :
    region.accepts addr memType size = true ↔ region.memType = memType ∧
      Accepts (2 ^ 64) region.startAddr.toNat region.endAddr.toNat addr.toNat size.toNat := by
  simp only [MemoryRegion.accepts, Bool.and_eq_true, beq_iff_eq, decide_eq_true_eq,
    UInt64.le_iff_toNat_le, toNat_add_sub_one, UInt32.toNat_toUInt64, Accepts, and_assoc]

theorem isValidMemoryAddress_iff {addr : UInt64} {memType : UInt8} {size : UInt32} :
    isValidMemoryAddress addr memType size = true ↔
      ∃ region ∈ memoryRegions, region.accepts addr memType size = true := by
  simp [isValidMemoryAddress]

/-- The check is exact for non-empty ranges that end below `2 ^ 64`. -/
theorem isValidMemoryAddress_iff_mapped {addr : UInt64} {memType : UInt8} {size : UInt32}
    (hn : 0 < size.toNat) (h : addr.toNat + size.toNat ≤ 2 ^ 64) :
    isValidMemoryAddress addr memType size = true ↔ Mapped memType addr.toNat size.toNat := by
  simp only [isValidMemoryAddress_iff, MemoryRegion.accepts_iff, accepts_iff_within hn h]
  rfl

/-- A mapped range ends far below `2 ^ 64`. -/
theorem Mapped.add_le {memType : UInt8} {a n : Nat} (h : Mapped memType a n) : a + n ≤ 2 ^ 31 := by
  obtain ⟨region, hmem, -, -, hend⟩ := h
  have := (memoryRegions_bounds hmem).2.2
  omega

/-- A range past `2 ^ 64` is accepted when its wrapped end is below the end of a
region of the type. -/
theorem accepts_iff_of_wrap {region : MemoryRegion} (hmem : region ∈ memoryRegions)
    {addr : UInt64} {memType : UInt8} {size : UInt32}
    (h : 2 ^ 64 < addr.toNat + size.toNat) :
    region.accepts addr memType size = true ↔ region.memType = memType ∧
      addr.toNat + size.toNat - 1 - 2 ^ 64 ≤ region.endAddr.toNat := by
  have ha := addr.toNat_lt
  have hs := size.toNat_lt
  have hb := memoryRegions_bounds hmem
  rw [MemoryRegion.accepts_iff, accepts_iff_of_gt h (by omega)]
  constructor
  · rintro ⟨ht, -, hend⟩
    exact ⟨ht, hend⟩
  · rintro ⟨ht, hend⟩
    exact ⟨ht, by omega, hend⟩

/-! ## The region validator -/

/-- The inputs on which `CFS_ValidateMemoryRegion` accepts a range that no
region contains: an empty range one past the end of a region, where no other
region of the type goes on, and a range past `2 ^ 64` whose wrapped end is not
above all regions of the type. -/
def Misjudged (addr : UInt64) (size : UInt32) (memType : UInt8) : Prop :=
  (size = 0 ∧
    (∃ region ∈ memoryRegions, region.memType = memType ∧
      addr.toNat = region.endAddr.toNat + 1) ∧
    ¬ ∃ region ∈ memoryRegions, region.memType = memType ∧
      region.startAddr ≤ addr ∧ addr ≤ region.endAddr) ∨
  (2 ^ 64 < addr.toNat + size.toNat ∧
    ∃ region ∈ memoryRegions, region.memType = memType ∧
      addr.toNat + size.toNat - 1 - 2 ^ 64 ≤ region.endAddr.toNat)

theorem MemoryRegion.Contains.accepts {region : MemoryRegion} (hmem : region ∈ memoryRegions)
    {addr : UInt64} {memType : UInt8} {size : UInt32}
    (h : region.Contains memType addr.toNat size.toNat) :
    region.accepts addr memType size = true := by
  obtain ⟨⟨ht, hw⟩, hle⟩ := h
  have hb := memoryRegions_bounds hmem
  have ha := addr.toNat_lt
  rw [MemoryRegion.accepts_iff]
  refine ⟨ht, ?_⟩
  rcases Nat.eq_zero_or_pos size.toNat with hz | hpos
  · rw [hz, accepts_zero_iff hb.1 ha]
    exact ⟨hw.1, by omega⟩
  · have hend := hw.2
    exact (accepts_iff_within hpos (by omega)).mpr hw

/-- Some region accepts the range, and none contains it. -/
def WronglyAccepted (addr : UInt64) (size : UInt32) (memType : UInt8) : Prop :=
  (∃ region ∈ memoryRegions, region.accepts addr memType size = true) ∧
  ¬ ∃ region ∈ memoryRegions, region.Contains memType addr.toNat size.toNat

section Misjudged

variable {addr : UInt64} {size : UInt32} {memType : UInt8}

/-- Past the top no region contains anything. -/
theorem misjudged_iff_of_wrap (h : 2 ^ 64 < addr.toNat + size.toNat) :
    Misjudged addr size memType ↔ WronglyAccepted addr size memType := by
  have hsize : size ≠ 0 := by
    intro hzero
    have ha := addr.toNat_lt
    rw [hzero, UInt32.toNat_zero] at h
    omega
  have hnone : ¬ ∃ region ∈ memoryRegions, region.Contains memType addr.toNat size.toNat := by
    intro hcont
    obtain ⟨region, hmem, ⟨-, -, hend⟩, -⟩ := hcont
    have := (memoryRegions_bounds hmem).2.2
    omega
  unfold Misjudged WronglyAccepted
  simp only [hsize, false_and, false_or, h, true_and, hnone, not_false_eq_true, and_true]
  exact exists_congr fun region => and_congr_right fun hmem => (accepts_iff_of_wrap hmem h).symm

/-- An empty range is also accepted one past the end of a region. -/
theorem misjudged_zero_iff : Misjudged addr 0 memType ↔ WronglyAccepted addr 0 memType := by
  have ha := addr.toNat_lt
  have hacc : ∀ region ∈ memoryRegions, (region.accepts addr memType 0 = true ↔
      region.memType = memType ∧ region.startAddr.toNat ≤ addr.toNat ∧
        addr.toNat ≤ region.endAddr.toNat + 1) := by
    intro region hmem
    rw [MemoryRegion.accepts_iff, UInt32.toNat_zero,
      accepts_zero_iff (memoryRegions_bounds hmem).1 ha]
  have hcont : ∀ region : MemoryRegion, (region.Contains memType addr.toNat (0 : UInt32).toNat ↔
      region.memType = memType ∧ region.startAddr ≤ addr ∧ addr ≤ region.endAddr) := by
    intro region
    simp only [MemoryRegion.Contains, MemoryRegion.Covers, Within, UInt32.toNat_zero,
      UInt64.le_iff_toNat_le, and_assoc]
    exact and_congr_right fun _ => and_congr_right fun _ => by omega
  have hnot : ¬ 2 ^ 64 < addr.toNat + (0 : UInt32).toNat := by
    rw [UInt32.toNat_zero]
    omega
  unfold Misjudged WronglyAccepted
  simp only [hnot, false_and, or_false, true_and, hcont]
  refine and_congr_left fun hnone => ?_
  constructor
  · intro hpast
    obtain ⟨region, hmem, ht, heq⟩ := hpast
    have hb := memoryRegions_bounds hmem
    exact ⟨region, hmem, (hacc region hmem).mpr ⟨ht, by omega, by omega⟩⟩
  · intro hregion
    obtain ⟨region, hmem, hregion⟩ := hregion
    obtain ⟨ht, hlo, hhi⟩ := (hacc region hmem).mp hregion
    refine ⟨region, hmem, ht, ?_⟩
    by_contra hne
    refine hnone ⟨region, hmem, ht, UInt64.le_iff_toNat_le.mpr hlo, ?_⟩
    exact UInt64.le_iff_toNat_le.mpr (by omega)

/-- A non-empty range below the top is not misjudged. -/
theorem misjudged_iff_of_le (hpos : 0 < size.toNat) (h : addr.toNat + size.toNat ≤ 2 ^ 64) :
    Misjudged addr size memType ↔ WronglyAccepted addr size memType := by
  have hsize : size ≠ 0 := by
    intro hzero
    rw [hzero] at hpos
    exact absurd hpos (by decide)
  unfold Misjudged WronglyAccepted
  simp only [hsize, false_and, Nat.not_lt.mpr h, or_false, false_iff, not_and, not_not]
  intro hregion
  obtain ⟨region, hmem, hregion⟩ := hregion
  rw [MemoryRegion.accepts_iff, accepts_iff_within hpos h] at hregion
  obtain ⟨ht, hw⟩ := hregion
  have hend := hw.2
  exact ⟨region, hmem, ⟨ht, hw⟩, by omega⟩

/-- An accepted range that no region contains is misjudged, and conversely. -/
theorem misjudged_iff : Misjudged addr size memType ↔ WronglyAccepted addr size memType := by
  rcases Nat.lt_or_ge (2 ^ 64) (addr.toNat + size.toNat) with hwrap | hle
  · exact misjudged_iff_of_wrap hwrap
  · rcases Nat.eq_zero_or_pos size.toNat with hz | hpos
    · obtain rfl : size = 0 := UInt32.toNat_inj.mp hz
      exact misjudged_zero_iff
    · exact misjudged_iff_of_le hpos hle

end Misjudged

/-- The verdict of the validator once a region of the type passes its test. -/
theorem validateMemoryRegion_of_accepts {region : MemoryRegion} (hmem : region ∈ memoryRegions)
    {addr : UInt64} {size : UInt32} {memType : UInt8} (h : region.accepts addr memType size = true)
    (writeAccess : Bool) :
    validateMemoryRegion addr size memType writeAccess =
      if writeAccess = true ∧ region.writable = false then errorPermission else CFE.success := by
  have hvalid : isValidMemoryAddress addr memType size = true :=
    isValidMemoryAddress_iff.mpr ⟨region, hmem, h⟩
  obtain ⟨first, hfirst⟩ :
      ∃ first, memoryRegions.find? (·.accepts addr memType size) = some first :=
    Option.isSome_iff_exists.mp (List.find?_isSome.mpr ⟨region, hmem, h⟩)
  -- the first region that passes need not be this one, but it is of the same type
  have hpass : first.accepts addr memType size = true := by simpa using List.find?_some hfirst
  have htype : first.memType = region.memType :=
    (MemoryRegion.accepts_iff.mp hpass).1.trans (MemoryRegion.accepts_iff.mp h).1.symm
  have hwritable := writable_eq_of_memType_eq (List.mem_of_find?_eq_some hfirst) hmem htype
  simp only [validateMemoryRegion, hvalid, hfirst, hwritable]
  cases writeAccess <;> cases region.writable <;> rfl

theorem validateMemoryRegion_of_not_valid {addr : UInt64} {size : UInt32} {memType : UInt8}
    (h : ¬ ∃ region ∈ memoryRegions, region.accepts addr memType size = true)
    (writeAccess : Bool) :
    validateMemoryRegion addr size memType writeAccess = errorInvalidAddr := by
  have hvalid : isValidMemoryAddress addr memType size = false := by
    rw [← Bool.not_eq_true, isValidMemoryAddress_iff]
    exact h
  simp [validateMemoryRegion, hvalid]

/-- A write to memory of a loadable type is allowed where the address check passes. -/
theorem validateMemoryRegion_write_eq_success_iff {addr : UInt64} {size : UInt32} {memType : UInt8}
    (ht : memType = MM.ram ∨ memType = MM.eeprom) :
    validateMemoryRegion addr size memType true = CFE.success ↔
      isValidMemoryAddress addr memType size = true := by
  rw [isValidMemoryAddress_iff]
  constructor
  · intro h
    by_contra hnone
    rw [validateMemoryRegion_of_not_valid hnone] at h
    exact absurd h (by decide)
  · rintro ⟨region, hmem, hregion⟩
    have htype := (MemoryRegion.accepts_iff.mp hregion).1
    have hwritable := writable_of_loadable hmem (by rwa [htype])
    rw [validateMemoryRegion_of_accepts hmem hregion, hwritable]
    rfl

/-- What the validator's status should say about a range: the address error
exactly when no region contains it, else the permission error exactly when it is
to be written and the region that contains it is read-only, else success. -/
def ExactVerdict (addr : UInt64) (size : UInt32) (memType : UInt8) (writeAccess : Bool)
    (status : Int32) : Prop :=
  (status = errorInvalidAddr ↔
    ¬ ∃ region ∈ memoryRegions, region.Contains memType addr.toNat size.toNat) ∧
  ∀ region ∈ memoryRegions, region.Contains memType addr.toNat size.toNat →
    (status = errorPermission ↔ writeAccess = true ∧ region.writable = false) ∧
    (status = CFE.success ↔ ¬ (writeAccess = true ∧ region.writable = false))

/-- **The region validator is exact except on the misjudged ranges.** -/
theorem exactVerdict_validateMemoryRegion_iff (addr : UInt64) (size : UInt32) (memType : UInt8)
    (writeAccess : Bool) :
    ExactVerdict addr size memType writeAccess
        (validateMemoryRegion addr size memType writeAccess) ↔
      ¬ Misjudged addr size memType := by
  rw [misjudged_iff, WronglyAccepted, not_and, not_not]
  by_cases hacc : ∃ region ∈ memoryRegions, region.accepts addr memType size = true
  · obtain ⟨region, hmem, hregion⟩ := hacc
    have hverdict := fun r (hr : r ∈ memoryRegions) (h : r.accepts addr memType size = true) =>
      validateMemoryRegion_of_accepts hr h writeAccess
    have hne : validateMemoryRegion addr size memType writeAccess ≠ errorInvalidAddr := by
      rw [hverdict region hmem hregion]
      split <;> decide
    simp only [ExactVerdict, hne, false_iff, not_not]
    constructor
    · rintro ⟨h, -⟩ -
      exact h
    · intro h
      refine ⟨h ⟨region, hmem, hregion⟩, fun r hr hcont => ?_⟩
      rw [hverdict r hr (hcont.accepts hr)]
      split
      case isTrue hw =>
        exact ⟨iff_of_true rfl hw, iff_of_false (by decide) (not_not.mpr hw)⟩
      case isFalse hw => exact ⟨iff_of_false (by decide) hw, iff_of_true rfl hw⟩
  · have hnone : ¬ ∃ region ∈ memoryRegions, region.Contains memType addr.toNat size.toNat := by
      rintro ⟨region, hmem, hcont⟩
      exact hacc ⟨region, hmem, hcont.accepts hmem⟩
    simp only [ExactVerdict, validateMemoryRegion_of_not_valid hacc, hacc, hnone,
      not_false_eq_true, true_and, false_imp_iff, iff_true]
    intro region hmem hcont
    exact absurd ⟨region, hmem, hcont⟩ hnone

/-- Five bytes at `2 ^ 64 - 4` pass as writable RAM. -/
theorem validateMemoryRegion_wraps :
    ¬ ExactVerdict 0xFFFFFFFFFFFFFFFC 5 MM.ram true
      (validateMemoryRegion 0xFFFFFFFFFFFFFFFC 5 MM.ram true) := by
  rintro ⟨h, -⟩
  have hnone : ¬ ∃ region ∈ memoryRegions, region.Contains MM.ram
      (0xFFFFFFFFFFFFFFFC : UInt64).toNat (5 : UInt32).toNat := by
    rintro ⟨region, hmem, -, hle⟩
    have := (memoryRegions_bounds hmem).2.2
    simp at hle
    omega
  exact absurd (h.mpr hnone) (by decide)

end CFS
