-- SUMMARY: Ranges that several regions of the memory map cover together, and which of them the address check accepts.
import CfsMmFuzzer.Base.IntervalFamily
import CfsMmFuzzer.Memory.RegionMap

/-!
# Adjacent regions

The address check asks for one region that has the whole range. Two regions of
one type may touch, and then a range across their seam has all of its cells in
regions of its type and is refused all the same.
-/

namespace CFS

open IntervalFamily

/-- The regions of a type. -/
def regionsOf (memType : UInt8) : Set MemoryRegion :=
  {region | region ∈ memoryRegions ∧ region.memType = memType}

def MemoryRegion.first (region : MemoryRegion) : Nat := region.startAddr.toNat
def MemoryRegion.last (region : MemoryRegion) : Nat := region.endAddr.toNat

/-- Every cell of the range is in some region of the type. -/
def CellsMapped (memType : UInt8) (a n : Nat) : Prop :=
  Covered (regionsOf memType) MemoryRegion.first MemoryRegion.last a n

/-- A region of the type ends inside the range, before its last cell. -/
def CrossesEnd (memType : UInt8) (a n : Nat) : Prop :=
  EndsInside (regionsOf memType) MemoryRegion.last a n

theorem mapped_iff_inOne {memType : UInt8} {a n : Nat} :
    Mapped memType a n ↔ InOne (regionsOf memType) MemoryRegion.first MemoryRegion.last a n := by
  unfold Mapped InOne
  exact exists_congr fun region => and_assoc.symm

/-- The regions of the map are not empty and do not overlap. -/
theorem separate_regionsOf (memType : UInt8) :
    Separate (regionsOf memType) MemoryRegion.first MemoryRegion.last where
  nonempty := fun region hregion => (memoryRegions_bounds hregion.1).2.1
  eq_of_mem := by
    intro r hr s hs x hr₁ hr₂ hs₁ hs₂
    have hall : ∀ r ∈ memoryRegions, ∀ s ∈ memoryRegions,
        r.first ≤ s.last → s.first ≤ r.last → r = s := by
      decide
    exact hall r hr.1 s hs.1 (hr₁.trans hs₂) (hs₁.trans hr₂)

/-- The only seams: two SRAM regions, and two EEPROM regions. -/
theorem crossesEnd_iff_of_cellsMapped {memType : UInt8} {a n : Nat} (h : CellsMapped memType a n) :
    CrossesEnd memType a n ↔
      (memType = MM.ram ∧ a < 0x20080000 ∧ 0x20080000 < a + n) ∨
      (memType = MM.eeprom ∧ a < 0x08100000 ∧ 0x08100000 < a + n) := by
  have htouch : ∀ r ∈ memoryRegions, ∀ s ∈ memoryRegions, r.memType = s.memType →
      s.first ≤ r.last + 1 → r.last + 1 ≤ s.last →
        (r.memType = MM.ram ∧ r.last + 1 = 0x20080000) ∨
        (r.memType = MM.eeprom ∧ r.last + 1 = 0x08100000) := by
    decide
  constructor
  · intro hcross
    obtain ⟨r, hr, har, hrn⟩ := hcross
    obtain ⟨s, hs, hs₁, hs₂⟩ := h (r.last + 1) (by omega) hrn
    obtain ⟨ht, hseam⟩ | ⟨ht, hseam⟩ :=
      htouch r hr.1 s hs.1 (hr.2.trans hs.2.symm) hs₁ hs₂
    · exact .inl ⟨hr.2 ▸ ht, by omega, by omega⟩
    · exact .inr ⟨hr.2 ▸ ht, by omega, by omega⟩
  · intro hseam
    obtain ⟨rfl, ha, hn⟩ | ⟨rfl, ha, hn⟩ := hseam
    · refine ⟨⟨0x20000000, 0x2007FFFF, MM.ram, true⟩, ⟨by decide, rfl⟩, ?_, ?_⟩
      · exact Nat.le_of_lt_succ ha
      · exact hn
    · refine ⟨⟨0x08080000, 0x080FFFFF, MM.eeprom, true⟩, ⟨by decide, rfl⟩, ?_, ?_⟩
      · exact Nat.le_of_lt_succ ha
      · exact hn

/-- **Which covered ranges are accepted**: of the ranges all of whose cells are
in regions of the type, those in which no region ends early; and of the unions
of two accepted ranges, those where no region ends at the seam. -/
theorem isValidMemoryAddress_covered_iff (memType : UInt8) :
    (∀ (addr : UInt64) (size : UInt32), 1 ≤ size.toNat → addr.toNat + size.toNat ≤ 2 ^ 64 →
      CellsMapped memType addr.toNat size.toNat →
        (isValidMemoryAddress addr memType size = true ↔
          ¬ CrossesEnd memType addr.toNat size.toNat)) ∧
    (∀ (addr : UInt64) (m n : UInt32), 1 ≤ m.toNat → 1 ≤ n.toNat → m.toNat + n.toNat < 2 ^ 32 →
      addr.toNat + (m.toNat + n.toNat) ≤ 2 ^ 64 →
      isValidMemoryAddress addr memType m = true →
      isValidMemoryAddress (addr + m.toUInt64) memType n = true →
        (isValidMemoryAddress addr memType (m + n) = true ↔
          ¬ ∃ region ∈ regionsOf memType, region.last + 1 = addr.toNat + m.toNat)) := by
  constructor
  · intro addr size hn hle hcells
    rw [isValidMemoryAddress_iff_mapped hn hle, mapped_iff_inOne]
    exact hcells.inOne_iff (separate_regionsOf memType) hn
  · intro addr m n hm hn hsum hle h₁ h₂
    have hsize : (m + n).toNat = m.toNat + n.toNat := by
      rw [UInt32.toNat_add, Nat.mod_eq_of_lt hsum]
    have hnext : (addr + m.toUInt64).toNat = addr.toNat + m.toNat := by
      rw [UInt64.toNat_add, UInt32.toNat_toUInt64, Nat.mod_eq_of_lt (by omega)]
    rw [isValidMemoryAddress_iff_mapped hm (by omega), mapped_iff_inOne] at h₁
    rw [isValidMemoryAddress_iff_mapped hn (by omega), hnext, mapped_iff_inOne] at h₂
    rw [isValidMemoryAddress_iff_mapped (by omega) (by omega), hsize, mapped_iff_inOne]
    exact h₁.append_iff (separate_regionsOf memType) hm hn h₂

/-- Two bytes across the seam of the SRAM regions: each is in a region and
accepted, and both together are refused. -/
theorem isValidMemoryAddress_seam :
    CellsMapped MM.ram (0x2007FFFF : UInt64).toNat (2 : UInt32).toNat ∧
      isValidMemoryAddress 0x2007FFFF MM.ram 1 = true ∧
      isValidMemoryAddress 0x20080000 MM.ram 1 = true ∧
      isValidMemoryAddress 0x2007FFFF MM.ram 2 = false := by
  refine ⟨?_, by decide, by decide, by decide⟩
  intro x hlo hhi
  have hfirst : (0x2007FFFF : UInt64).toNat = 0x2007FFFF := rfl
  have htwo : (2 : UInt32).toNat = 2 := rfl
  obtain rfl | rfl : x = 0x2007FFFF ∨ x = 0x20080000 := by omega
  · exact ⟨⟨0x20000000, 0x2007FFFF, MM.ram, true⟩, ⟨by decide, rfl⟩, by decide, by decide⟩
  · exact ⟨⟨0x20080000, 0x200FFFFF, MM.ram, true⟩, ⟨by decide, rfl⟩, by decide, by decide⟩

/-- One byte inside a region, and two single bytes side by side. -/
theorem isValidMemoryAddress_covered_iff_sram :
    (isValidMemoryAddress 0x20000000 MM.ram 1 = true ↔
      ¬ CrossesEnd MM.ram (0x20000000 : UInt64).toNat (1 : UInt32).toNat) ∧
    (isValidMemoryAddress 0x2007FFFF MM.ram (1 + 1) = true ↔
      ¬ ∃ region ∈ regionsOf MM.ram,
        region.last + 1 = (0x2007FFFF : UInt64).toNat + (1 : UInt32).toNat) := by
  have hcells : CellsMapped MM.ram (0x20000000 : UInt64).toNat (1 : UInt32).toNat :=
    (mapped_iff_inOne.mp (by decide)).covered
  exact ⟨(isValidMemoryAddress_covered_iff MM.ram).1 _ _ (by decide) (by decide) hcells,
    (isValidMemoryAddress_covered_iff MM.ram).2 _ 1 1 (by decide) (by decide) (by decide)
      (by decide) (by decide) (by decide)⟩

end CFS
