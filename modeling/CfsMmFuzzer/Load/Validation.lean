-- SUMMARY: What the simulated command accepts, against exact addresses and against the common library.
import CfsMmFuzzer.FileName.Containment
import CfsMmFuzzer.Harness.MmLoad
import CfsMmFuzzer.Memory.RegionMap

/-!
# Validation of a load command

`exactAddress` is the address a command means, in unbounded integers. The
simulation resolves it modulo `2 ^ 64` and then checks it with 64-bit additions.
Once the fields of a command pass, its status depends on that address alone.
-/

namespace MM

/-! ## The address of a command -/

/-- The address that a destination means, without wrapping. -/
def exactAddress (t : CFS.Target) (dest : SymAddr) (symName : CString) : Nat :=
  if symName.length = 0 then dest.offset.toNat
  else t.defaultRamAddr.toNat + 0x1000 * symName.length + dest.offset.toNat

theorem resolveInline_eq (t : CFS.Target) {dest : SymAddr} {symName : CString}
    (h : dest.symName.cstring? = some symName) :
    resolveInline t dest = some (UInt64.ofNat (exactAddress t dest symName)) := by
  unfold resolveInline
  rw [h]
  simp only [Option.bind_eq_bind, Option.bind_some, exactAddress]
  rcases Nat.eq_zero_or_pos symName.length with hzero | hpos
  · rw [if_neg (by omega), if_pos hzero, UInt64.ofNat_toNat]
  · rw [if_pos hpos, if_neg (by omega)]
    refine congrArg some (UInt64.toNat_inj.mp ?_)
    simp only [UInt64.toNat_add, UInt64.toNat_mul, UInt64.toNat_ofNat', UInt64.reduceToNat]
    omega

/-! ## The checks of the fields -/

/-- The checks of the simulation that come before the address. -/
structure FieldsAccepted (cmd : LoadMemFromFileCmd) (fileName : CString) : Prop where
  memType : cmd.memType = ram ∨ cmd.memType = eeprom
  numOfBytes_pos : 0 < cmd.numOfBytes.toNat
  numOfBytes_le : cmd.numOfBytes ≤ maxLoadFileData cmd.memType
  fileName_pos : 0 < fileName.length
  fileName_clean : hasTraversal fileName = false

/-- The address checks, in the order of the simulation. -/
def addressStatus (t : CFS.Target) (memType : UInt8) (numOfBytes : UInt32) (addr : UInt64) :
    Int32 :=
  if !CFS.isValidMemoryAddress addr memType numOfBytes then CFS.errorInvalidAddr
  else if addr % t.memoryAlignment ≠ 0 then CFS.errorAlignment
  else CFE.success

theorem addressStatus_not_mem (t : CFS.Target) (memType : UInt8) (numOfBytes : UInt32)
    (addr : UInt64) :
    addressStatus t memType numOfBytes addr ∉
      [OS.invalidPointer, CFS.errorInvalidMemtype, CFS.errorInvalidSize, CFS.errorInvalidFile] := by
  unfold addressStatus
  split_ifs <;> decide

/-- Each status of the address checks, by the two tests it depends on. -/
theorem addressStatus_eq_iff (t : CFS.Target) (memType : UInt8) (numOfBytes : UInt32)
    (addr : UInt64) :
    (addressStatus t memType numOfBytes addr = CFE.success ↔
      CFS.isValidMemoryAddress addr memType numOfBytes = true ∧ addr % t.memoryAlignment = 0) ∧
    (addressStatus t memType numOfBytes addr = CFS.errorAlignment ↔
      CFS.isValidMemoryAddress addr memType numOfBytes = true ∧ ¬ addr % t.memoryAlignment = 0) ∧
    (addressStatus t memType numOfBytes addr = CFS.errorInvalidAddr ↔
      ¬ CFS.isValidMemoryAddress addr memType numOfBytes = true) := by
  unfold addressStatus
  by_cases hmod : addr % t.memoryAlignment = 0 <;>
    cases CFS.isValidMemoryAddress addr memType numOfBytes <;>
    simp [hmod, CFE.success, CFS.errorAlignment, CFS.errorInvalidAddr]

section Simulation

variable {t : CFS.Target} {cmd : LoadMemFromFileCmd} {fileName symName : CString}

/-- A command whose fields pass has the status of its address. -/
theorem simulation_of_fieldsAccepted (hfile : cmd.fileName.cstring? = some fileName)
    (hsym : cmd.destSymAddress.symName.cstring? = some symName) (h : FieldsAccepted cmd fileName) :
    loadMemFromFileCmdSimulation t (some cmd) = some (addressStatus t cmd.memType cmd.numOfBytes
      (UInt64.ofNat (exactAddress t cmd.destSymAddress symName))) := by
  have htype : ¬ (cmd.memType ≠ ram ∧ cmd.memType ≠ eeprom) := by
    intro hneither
    exact h.memType.elim hneither.1 hneither.2
  have hzero : cmd.numOfBytes ≠ 0 := by
    intro hzero
    have hpos := h.numOfBytes_pos
    rw [hzero] at hpos
    exact absurd hpos (by decide)
  have hmax : ¬ cmd.numOfBytes > maxLoadFileData cmd.memType := UInt32.not_lt.mpr h.numOfBytes_le
  rw [loadMemFromFileCmdSimulation, if_neg htype, if_neg hzero, if_neg hmax, hfile]
  simp only [Option.bind_eq_bind, Option.bind_some, h.fileName_pos.ne', if_false,
    h.fileName_clean, Bool.false_eq_true, resolveInline_eq t hsym, addressStatus]
  split_ifs <;> rfl

/-- A command with a bad field is rejected for it. -/
theorem simulation_of_not_fieldsAccepted (hfile : cmd.fileName.cstring? = some fileName)
    (h : ¬ FieldsAccepted cmd fileName) :
    ∃ status, loadMemFromFileCmdSimulation t (some cmd) = some status ∧
      status ∈ [CFS.errorInvalidMemtype, CFS.errorInvalidSize, CFS.errorInvalidFile] := by
  rw [loadMemFromFileCmdSimulation, hfile]
  simp only [Option.bind_eq_bind, Option.bind_some]
  by_cases htype : cmd.memType ≠ ram ∧ cmd.memType ≠ eeprom
  · exact ⟨_, if_pos htype, by simp⟩
  rw [if_neg htype]
  by_cases hzero : cmd.numOfBytes = 0
  · exact ⟨_, if_pos hzero, by simp⟩
  rw [if_neg hzero]
  by_cases hmax : cmd.numOfBytes > maxLoadFileData cmd.memType
  · exact ⟨_, if_pos hmax, by simp⟩
  rw [if_neg hmax]
  by_cases hempty : fileName.length = 0
  · exact ⟨_, if_pos hempty, by simp⟩
  rw [if_neg hempty]
  by_cases htrav : hasTraversal fileName = true
  · exact ⟨_, if_pos htrav, by simp⟩
  -- every check passed, against the hypothesis
  have htype' : cmd.memType = ram ∨ cmd.memType = eeprom := by
    by_contra hneither
    exact htype (not_or.mp hneither)
  have hpos : 0 < cmd.numOfBytes.toNat :=
    Nat.pos_of_ne_zero fun hnat => hzero (UInt32.toNat_inj.mp hnat)
  exact absurd ⟨htype', hpos, UInt32.not_lt.mp hmax, Nat.pos_of_ne_zero hempty,
    Bool.not_eq_true _ ▸ htrav⟩ h

end Simulation

/-! ## Exact addresses -/

/-- The alignment divides `2 ^ 64`, so wrapping does not change it. -/
theorem ofNat_mod_memoryAlignment_iff (t : CFS.Target) (a : Nat) :
    UInt64.ofNat a % t.memoryAlignment = 0 ↔ t.memoryAlignment.toNat ∣ a := by
  have hdvd : t.memoryAlignment.toNat ∣ 2 ^ 64 := by cases t <;> decide
  rw [← UInt64.toNat_inj, UInt64.toNat_mod, UInt64.toNat_ofNat', UInt64.toNat_zero,
    ← Nat.dvd_iff_mod_eq_zero, Nat.dvd_mod_iff hdvd]

/-- A destination lies less than `2 ^ 32` past the 64-bit address space. -/
theorem exactAddress_lt (t : CFS.Target) {dest : SymAddr} {symName : CString}
    (h : dest.symName.cstring? = some symName) :
    exactAddress t dest symName < 2 ^ 64 + 2 ^ 32 := by
  have hoff := dest.offset.toNat_lt
  have hlen : symName.length < 20 := CharArray.length_lt_of_cstring? h
  have hram := t.defaultRamAddr_bounds
  unfold exactAddress
  split <;> omega

/-- The status tells exactly where the range `[a, a + n)` lies. -/
structure ExactStatus (t : CFS.Target) (memType : UInt8) (a n : Nat) (status : Int32) : Prop where
  success : status = CFE.success ↔ CFS.Mapped memType a n ∧ t.memoryAlignment.toNat ∣ a
  alignment : status = CFS.errorAlignment ↔ CFS.Mapped memType a n ∧ ¬ t.memoryAlignment.toNat ∣ a
  invalidAddr : status = CFS.errorInvalidAddr ↔ ¬ CFS.Mapped memType a n

/-- Inside the 64-bit address space the address checks are exact. -/
theorem exactStatus_addressStatus (t : CFS.Target) (memType : UInt8) {numOfBytes : UInt32} {a : Nat}
    (hpos : 0 < numOfBytes.toNat) (h : a + numOfBytes.toNat ≤ 2 ^ 64) :
    ExactStatus t memType a numOfBytes.toNat
      (addressStatus t memType numOfBytes (UInt64.ofNat a)) := by
  have ha : (UInt64.ofNat a).toNat = a := UInt64.toNat_ofNat_of_lt' (show a < 2 ^ 64 by omega)
  have hmapped : CFS.isValidMemoryAddress (UInt64.ofNat a) memType numOfBytes = true ↔
      CFS.Mapped memType a numOfBytes.toNat := by
    rw [CFS.isValidMemoryAddress_iff_mapped hpos (by rwa [ha]), ha]
  obtain ⟨hsuccess, halign, hinvalid⟩ :=
    addressStatus_eq_iff t memType numOfBytes (UInt64.ofNat a)
  simp only [hmapped, ofNat_mod_memoryAlignment_iff] at hsuccess halign hinvalid
  exact ⟨hsuccess, halign, hinvalid⟩

/-! ## Accepted loads -/

/-- The range leaves the 64-bit address space, and what is left of it after
wrapping passes the check: it runs over the top, or it starts past the top in
place of a mapped range. -/
def WrapsIntoMap (memType : UInt8) (a n : Nat) : Prop :=
  (a < 2 ^ 64 ∧ 2 ^ 64 < a + n) ∨ (2 ^ 64 ≤ a ∧ CFS.Mapped memType (a - 2 ^ 64) n)

instance (memType : UInt8) (a n : Nat) : Decidable (WrapsIntoMap memType a n) :=
  inferInstanceAs (Decidable (_ ∨ _))

/-- What the address check accepts for a size within the limits. -/
theorem isValidMemoryAddress_ofNat_iff {memType : UInt8} {numOfBytes : UInt32} {a : Nat}
    (htype : memType = ram ∨ memType = eeprom) (hpos : 0 < numOfBytes.toNat)
    (hmax : numOfBytes.toNat ≤ 2 ^ 20) (ha : a < 2 ^ 64 + 2 ^ 32) :
    CFS.isValidMemoryAddress (UInt64.ofNat a) memType numOfBytes = true ↔
      CFS.Mapped memType a numOfBytes.toNat ∨ WrapsIntoMap memType a numOfBytes.toNat := by
  have hmod : (UInt64.ofNat a).toNat = a % 2 ^ 64 := UInt64.toNat_ofNat'
  rcases Nat.lt_or_ge a (2 ^ 64) with hlt | hge
  · rw [Nat.mod_eq_of_lt hlt] at hmod
    have hnot : ¬ 2 ^ 64 ≤ a := by omega
    rcases Nat.lt_or_ge (2 ^ 64) (a + numOfBytes.toNat) with hwrap | hle
    · -- the last address wraps to less than the largest size, below every region's end
      obtain ⟨region, hmem, hregion⟩ : ∃ region ∈ CFS.memoryRegions, region.memType = memType := by
        rcases htype with rfl | rfl <;> decide
      have hend := CFS.memoryRegions_endAddr_ge hmem
      have hvalid : CFS.isValidMemoryAddress (UInt64.ofNat a) memType numOfBytes = true :=
        CFS.isValidMemoryAddress_iff.mpr ⟨region, hmem,
          (CFS.accepts_iff_of_wrap hmem (by omega)).mpr ⟨hregion, by omega⟩⟩
      exact iff_of_true hvalid (.inr (.inl ⟨hlt, hwrap⟩))
    · rw [CFS.isValidMemoryAddress_iff_mapped hpos (by omega), hmod]
      exact (or_iff_left fun hwrap => hwrap.elim (fun h => by omega) (fun h => hnot h.1)).symm
  · rw [show a % 2 ^ 64 = a - 2 ^ 64 by omega] at hmod
    have hunmapped : ¬ CFS.Mapped memType a numOfBytes.toNat := fun h => by
      have := h.add_le
      omega
    rw [CFS.isValidMemoryAddress_iff_mapped hpos (by omega), hmod]
    simp only [WrapsIntoMap, hunmapped, hge, Nat.not_lt.mpr hge, false_and, false_or, true_and]

theorem FieldsAccepted.numOfBytes_toNat_le {cmd : LoadMemFromFileCmd} {fileName : CString}
    (h : FieldsAccepted cmd fileName) : cmd.numOfBytes.toNat ≤ 2 ^ 20 := by
  have hle := UInt32.le_iff_toNat_le.mp h.numOfBytes_le
  rcases h.memType with htype | htype <;> rw [htype] at hle <;> exact hle.trans (by decide)

section Accepted

variable {t : CFS.Target} {cmd : LoadMemFromFileCmd} {fileName symName : CString}

/-- Which commands the simulation accepts, in terms of their exact ranges. -/
theorem simulation_eq_success_iff (hfile : cmd.fileName.cstring? = some fileName)
    (hsym : cmd.destSymAddress.symName.cstring? = some symName) :
    loadMemFromFileCmdSimulation t (some cmd) = some CFE.success ↔
      FieldsAccepted cmd fileName ∧
      t.memoryAlignment.toNat ∣ exactAddress t cmd.destSymAddress symName ∧
      CFS.isValidMemoryAddress (UInt64.ofNat (exactAddress t cmd.destSymAddress symName))
        cmd.memType cmd.numOfBytes = true := by
  by_cases h : FieldsAccepted cmd fileName
  · have hstatus := (addressStatus_eq_iff t cmd.memType cmd.numOfBytes
      (UInt64.ofNat (exactAddress t cmd.destSymAddress symName))).1
    rw [simulation_of_fieldsAccepted hfile hsym h, Option.some.injEq, hstatus,
      ofNat_mod_memoryAlignment_iff, and_comm]
    exact (and_iff_right h).symm
  · obtain ⟨status, hstatus, hmem⟩ := simulation_of_not_fieldsAccepted (t := t) hfile h
    have hne : status ≠ CFE.success := by
      rintro rfl
      exact absurd hmem (by decide)
    simp only [hstatus, Option.some.injEq, hne, h, false_and]

/-- **An accepted load stays inside one region of its type, exactly unless its
range wraps.** -/
theorem mapped_of_simulation_iff (hfile : cmd.fileName.cstring? = some fileName)
    (hsym : cmd.destSymAddress.symName.cstring? = some symName) :
    (loadMemFromFileCmdSimulation t (some cmd) = some CFE.success →
        CFS.Mapped cmd.memType (exactAddress t cmd.destSymAddress symName) cmd.numOfBytes.toNat ∧
        exactAddress t cmd.destSymAddress symName + cmd.numOfBytes.toNat < 2 ^ 64) ↔
      ¬ (FieldsAccepted cmd fileName ∧
        t.memoryAlignment.toNat ∣ exactAddress t cmd.destSymAddress symName ∧
        WrapsIntoMap cmd.memType (exactAddress t cmd.destSymAddress symName)
          cmd.numOfBytes.toNat) := by
  rw [simulation_eq_success_iff hfile hsym]
  constructor
  · intro h hcond
    obtain ⟨hfields, halign, hwrap⟩ := hcond
    have hvalid := (isValidMemoryAddress_ofNat_iff hfields.memType hfields.numOfBytes_pos
      hfields.numOfBytes_toNat_le (exactAddress_lt t hsym)).mpr (.inr hwrap)
    have hlt := (h ⟨hfields, halign, hvalid⟩).2
    rcases hwrap with hwrap | hwrap <;> omega
  · intro h hok
    obtain ⟨hfields, halign, hvalid⟩ := hok
    rw [isValidMemoryAddress_ofNat_iff hfields.memType hfields.numOfBytes_pos
      hfields.numOfBytes_toNat_le (exactAddress_lt t hsym)] at hvalid
    have hmapped := hvalid.resolve_right fun hwrap => h ⟨hfields, halign, hwrap⟩
    exact ⟨hmapped, hmapped.add_le.trans_lt (by decide)⟩

end Accepted

/-- Eight bytes from `2 ^ 64 - 4` on, as RAM. -/
def wrappingCmd : LoadMemFromFileCmd :=
  { LoadMemFromFileCmd.cleared with
    memType := ram
    numOfBytes := 8
    destSymAddress := ⟨.zeros _, .zeros 4, 0xFFFFFFFFFFFFFFFC⟩
    fileName := .pad _ defaultFilename }

theorem wrappingCmd_fileName : wrappingCmd.fileName.cstring? = some defaultFilename :=
  CharArray.cstring?_pad (by decide)

theorem wrappingCmd_symName :
    wrappingCmd.destSymAddress.symName.cstring? = some ⟨[], by decide⟩ := rfl

/-- The simulation accepts a range that runs over the end of the address space. -/
theorem simulation_accepts_wrapping :
    ¬ (loadMemFromFileCmdSimulation .default (some wrappingCmd) = some CFE.success →
      CFS.Mapped wrappingCmd.memType
          (exactAddress .default wrappingCmd.destSymAddress ⟨[], by decide⟩)
          wrappingCmd.numOfBytes.toNat ∧
        exactAddress .default wrappingCmd.destSymAddress ⟨[], by decide⟩ +
          wrappingCmd.numOfBytes.toNat < 2 ^ 64) := by
  intro h
  have hok : loadMemFromFileCmdSimulation .default (some wrappingCmd) = some CFE.success := by
    decide +kernel
  exact absurd (h hok).2 (by decide)

theorem mapped_of_simulation_iff_wrapping :
    (loadMemFromFileCmdSimulation .default (some wrappingCmd) = some CFE.success →
        CFS.Mapped wrappingCmd.memType
          (exactAddress .default wrappingCmd.destSymAddress ⟨[], by decide⟩)
          wrappingCmd.numOfBytes.toNat ∧
        exactAddress .default wrappingCmd.destSymAddress ⟨[], by decide⟩ +
          wrappingCmd.numOfBytes.toNat < 2 ^ 64) ↔
      ¬ (FieldsAccepted wrappingCmd defaultFilename ∧
        CFS.Target.default.memoryAlignment.toNat ∣
          exactAddress .default wrappingCmd.destSymAddress ⟨[], by decide⟩ ∧
        WrapsIntoMap wrappingCmd.memType
          (exactAddress .default wrappingCmd.destSymAddress ⟨[], by decide⟩)
          wrappingCmd.numOfBytes.toNat) :=
  mapped_of_simulation_iff wrappingCmd_fileName wrappingCmd_symName

/-! ## Against the common library -/

/-- The library resolves a destination like the simulation does on the default target. -/
theorem resolveSymAddr_eq {dest : SymAddr} {symName : CString}
    (h : dest.symName.cstring? = some symName) (out : UInt64) :
    resolveSymAddr (some dest) (some out) =
      some (CFE.success, some (UInt64.ofNat (exactAddress .default dest symName))) := by
  have hinline := resolveInline_eq .default h
  unfold resolveInline at hinline
  rw [h] at hinline
  simp only [Option.bind_eq_bind, Option.bind_some] at hinline
  rw [resolveSymAddr, h]
  simp only [Option.bind_eq_bind, Option.bind_some]
  rcases Nat.eq_zero_or_pos symName.length with hzero | hpos
  · rw [if_neg (by omega)] at hinline ⊢
    rw [Option.some.inj hinline]
  · rw [if_pos hpos] at hinline ⊢
    rw [← Option.some.inj hinline]
    rfl

/-- The library's checks of a load command. `out` is what the variable for the
resolved address holds before the call. -/
def LibraryAccepts (out : UInt64) (cmd : LoadMemFromFileCmd) (fileName : CString) : Prop :=
  (cmd.memType = ram ∨ cmd.memType = eeprom) ∧
  1 ≤ cmd.numOfBytes ∧ cmd.numOfBytes ≤ CFS.getMaxDataSize cmd.memType ∧
  verifyFileName (some fileName) = CFE.success ∧
  ∃ a, resolveSymAddr (some cmd.destSymAddress) (some out) = some (CFE.success, some a) ∧
    CFS.validateMemoryRegion a cmd.numOfBytes cmd.memType true = CFE.success ∧
    isValidAlignment a mem32 = true

theorem getMaxDataSize_eq {memType : UInt8} (h : memType = ram ∨ memType = eeprom) :
    CFS.getMaxDataSize memType = maxLoadFileData memType := by
  rcases h with rfl | rfl <;> rfl

theorem isValidAlignment_mem32_iff (a : Nat) :
    isValidAlignment (UInt64.ofNat a) mem32 = true ↔
      CFS.Target.default.memoryAlignment.toNat ∣ a := by
  rw [← ofNat_mod_memoryAlignment_iff]
  exact beq_iff_eq

section Library

variable {cmd : LoadMemFromFileCmd} {fileName symName : CString}

/-- The library accepts what passes the shared checks below an allowed directory. -/
theorem libraryAccepts_iff (hfile : cmd.fileName.cstring? = some fileName)
    (hsym : cmd.destSymAddress.symName.cstring? = some symName) (out : UInt64) :
    LibraryAccepts out cmd fileName ↔
      hasValidPath fileName = true ∧ FieldsAccepted cmd fileName ∧
      CFS.Target.default.memoryAlignment.toNat ∣ exactAddress .default cmd.destSymAddress symName ∧
      CFS.isValidMemoryAddress (UInt64.ofNat (exactAddress .default cmd.destSymAddress symName))
        cmd.memType cmd.numOfBytes = true := by
  have hlen : fileName.length < OS.maxPathLen := CharArray.length_lt_of_cstring? hfile
  simp only [LibraryAccepts, verifyFileName_eq_success_iff, resolveSymAddr_eq hsym,
    Option.some.injEq, Prod.mk.injEq, true_and, exists_eq_left', isValidAlignment_mem32_iff]
  constructor
  · intro h
    obtain ⟨htype, hpos, hle, ⟨⟨hfile_pos, -⟩, hclean, hpath⟩, hregion, halign⟩ := h
    rw [CFS.validateMemoryRegion_write_eq_success_iff htype] at hregion
    rw [getMaxDataSize_eq htype] at hle
    exact ⟨hpath, ⟨htype, UInt32.le_iff_toNat_le.mp hpos, hle, hfile_pos, hclean⟩, halign, hregion⟩
  · intro h
    obtain ⟨hpath, hfields, halign, hregion⟩ := h
    rw [← CFS.validateMemoryRegion_write_eq_success_iff hfields.memType] at hregion
    refine ⟨hfields.memType, UInt32.le_iff_toNat_le.mpr hfields.numOfBytes_pos, ?_,
      ⟨⟨hfields.fileName_pos, hlen⟩, hfields.fileName_clean, hpath⟩, hregion, halign⟩
    rw [getMaxDataSize_eq hfields.memType]
    exact hfields.numOfBytes_le

/-- **The simulation agrees with the library's checks exactly where the file
name is below an allowed directory or a check that both make fails.** -/
theorem simulation_iff_libraryAccepts_iff (hfile : cmd.fileName.cstring? = some fileName)
    (hsym : cmd.destSymAddress.symName.cstring? = some symName) (out : UInt64) :
    (loadMemFromFileCmdSimulation .default (some cmd) = some CFE.success ↔
        LibraryAccepts out cmd fileName) ↔
      hasValidPath fileName = true ∨ ¬ FieldsAccepted cmd fileName ∨
      ¬ CFS.Target.default.memoryAlignment.toNat ∣
        exactAddress .default cmd.destSymAddress symName ∨
      CFS.isValidMemoryAddress (UInt64.ofNat (exactAddress .default cmd.destSymAddress symName))
        cmd.memType cmd.numOfBytes = false := by
  rw [simulation_eq_success_iff hfile hsym, libraryAccepts_iff hfile hsym out,
    ← Bool.not_eq_true (CFS.isValidMemoryAddress _ _ _)]
  tauto

end Library

/-- A well-formed load of `/etc/passwd` to the start of RAM. -/
def unlistedCmd : LoadMemFromFileCmd :=
  { LoadMemFromFileCmd.cleared with
    memType := ram
    numOfBytes := 8
    destSymAddress := ⟨.zeros _, .zeros 4, 0x20000000⟩
    fileName := .pad _ ⟨CString.ascii "/etc/passwd", by decide⟩ }

/-- The simulation accepts a file outside the allowed directories, the library does not. -/
theorem simulation_accepts_unlisted :
    ¬ (loadMemFromFileCmdSimulation .default (some unlistedCmd) = some CFE.success ↔
      LibraryAccepts 0 unlistedCmd ⟨CString.ascii "/etc/passwd", by decide⟩) := by
  have hok : loadMemFromFileCmdSimulation .default (some unlistedCmd) = some CFE.success := by
    decide +kernel
  have hfile : verifyFileName (some ⟨CString.ascii "/etc/passwd", by decide⟩) ≠ CFE.success := by
    decide +kernel
  exact fun h => hfile (h.mp hok).2.2.2.1

theorem simulation_iff_libraryAccepts_iff_unlisted :
    (loadMemFromFileCmdSimulation .default (some unlistedCmd) = some CFE.success ↔
        LibraryAccepts 0 unlistedCmd ⟨CString.ascii "/etc/passwd", by decide⟩) ↔
      hasValidPath ⟨CString.ascii "/etc/passwd", by decide⟩ = true ∨
      ¬ FieldsAccepted unlistedCmd ⟨CString.ascii "/etc/passwd", by decide⟩ ∨
      ¬ CFS.Target.default.memoryAlignment.toNat ∣
        exactAddress .default unlistedCmd.destSymAddress ⟨[], by decide⟩ ∨
      CFS.isValidMemoryAddress
        (UInt64.ofNat (exactAddress .default unlistedCmd.destSymAddress ⟨[], by decide⟩))
        unlistedCmd.memType unlistedCmd.numOfBytes = false :=
  simulation_iff_libraryAccepts_iff (CharArray.cstring?_pad (by decide)) rfl 0

end MM
