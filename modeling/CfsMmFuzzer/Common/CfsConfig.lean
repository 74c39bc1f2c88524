-- SUMMARY: The configuration header: per-target addresses, the symbol, path and memory tables, and the address check.
import CfsMmFuzzer.Common.CfeMock

/-!
# CFS configuration (`cfs_config.h`)

The conditional compilation on `CFS_TARGET_*` is a value of `Target`. The three
tables are the same for every target.
-/

namespace MM

/-- `MM_CMD_MID`. -/
def cmdMid : UInt32 := 0x1888

/-- `MM_LOAD_MEM_FROM_FILE_CC`. -/
def loadMemFromFileCc : UInt8 := 5

/-- `MM_RAM`. -/
def ram : UInt8 := 1

/-- `MM_EEPROM`. -/
def eeprom : UInt8 := 2

/-- `MM_MEM8`. -/
def mem8 : UInt8 := 8

/-- `MM_MEM16`. -/
def mem16 : UInt8 := 16

/-- `MM_MEM32`. -/
def mem32 : UInt8 := 32

/-- `MM_MAX_LOAD_FILE_DATA_RAM`. -/
def maxLoadFileDataRam : UInt32 := 1024 * 1024

/-- `MM_MAX_LOAD_FILE_DATA_EEPROM`. -/
def maxLoadFileDataEeprom : UInt32 := 128 * 1024

end MM

namespace CFS

/-! ## Targets -/

inductive Target where
  | x86
  | arm
  | sparc
  | vxworks
  | default
  deriving DecidableEq, Repr

namespace Target

/-- `CFS_DEFAULT_RAM_ADDR`. -/
def defaultRamAddr : Target → UInt64
  | x86 => 0x20000000
  | arm => 0x60000000
  | sparc => 0x40000000
  | vxworks => 0x20000000
  | default => 0x20000000

/-- `CFS_DEFAULT_EEPROM_ADDR`. -/
def defaultEepromAddr : Target → UInt64
  | x86 => 0x08080000
  | arm => 0x08100000
  | sparc => 0x30000000
  | vxworks => 0x08000000
  | default => 0x08080000

/-- `CFS_MEMORY_ALIGNMENT`. -/
def memoryAlignment : Target → UInt64
  | x86 => 4
  | arm => 4
  | sparc => 8
  | vxworks => 4
  | default => 4

theorem defaultRamAddr_bounds (t : Target) :
    0x20000000 ≤ t.defaultRamAddr.toNat ∧ t.defaultRamAddr.toNat ≤ 0x60000000 := by
  cases t <;> decide

end Target

/-! ## Error codes -/

def errorInvalidMemtype : Int32 := -1
def errorInvalidSize : Int32 := -2
def errorInvalidAddr : Int32 := -3
def errorInvalidFile : Int32 := -4
def errorAlignment : Int32 := -9
def errorPermission : Int32 := -10

/-! ## Symbols and paths -/

/-- `cfs_valid_symbols`. -/
def validSymbols : List CString :=
  CString.table
    ["CFE_ES_Global",
     "CFE_TBL_Global",
     "CFE_EVS_Global",
     "CFE_SB_Global",
     "CFE_TIME_Global",
     "MM_AppData",
     "MM_ResetArea",
     "MM_CmdCounter",
     "MM_ErrCounter",
     "CS_AppData",
     "DS_AppData",
     "FM_AppData",
     "HK_AppData",
     "LC_AppData",
     "MD_AppData",
     "SC_AppData",
     "SCH_AppData",
     "OS_VolumeTable",
     "PSP_MemoryTable",
     "CFE_PSP_MemoryTable",
     "BSP_RAM_START",
     "BSP_RAM_END",
     "BSP_EEPROM_START",
     "BSP_EEPROM_END"] (by decide)

/-- `CFS_NUM_VALID_SYMBOLS`. -/
def numValidSymbols : Nat := validSymbols.length

/-- `cfs_valid_paths`. -/
def validPaths : List CString :=
  CString.table
    ["/cf/apps/",
     "/cf/download/",
     "/cf/upload/",
     "/cf/log/",
     "/cf/tmp/",
     "/ram/",
     "/rom/",
     "/vol/",
     "/data/tables/",
     "/data/scripts/",
     "/data/config/",
     "/mission/apps/",
     "/mission/data/",
     "/platform/boot/",
     "/platform/config/"] (by decide)

/-- `CFS_NUM_VALID_PATHS`. -/
def numValidPaths : Nat := validPaths.length

@[simp] theorem numValidSymbols_eq : numValidSymbols = 24 := rfl
@[simp] theorem numValidPaths_eq : numValidPaths = 15 := rfl

/-! ## The memory map -/

/-- `CFS_MemoryRegion_t`, without the name and the executable flag. -/
structure MemoryRegion where
  startAddr : UInt64
  endAddr   : UInt64
  memType   : UInt8
  writable  : Bool
  deriving DecidableEq, Repr

/-- `cfs_memory_regions`: SRAM_MAIN, SRAM_BACKUP, SDRAM_EXTERNAL, EEPROM_CONFIG,
EEPROM_DATA, FLASH_BOOT and FLASH_APP. -/
def memoryRegions : List MemoryRegion :=
  [⟨0x20000000, 0x2007FFFF, MM.ram, true⟩,
   ⟨0x20080000, 0x200FFFFF, MM.ram, true⟩,
   ⟨0x60000000, 0x67FFFFFF, MM.ram, true⟩,
   ⟨0x08080000, 0x080FFFFF, MM.eeprom, true⟩,
   ⟨0x08100000, 0x081FFFFF, MM.eeprom, true⟩,
   ⟨0x08000000, 0x0807FFFF, 3, false⟩,
   ⟨0x08200000, 0x087FFFFF, 3, false⟩]

/-- The test of a region in both loops over the map. The sum is computed in 64 bits. -/
def MemoryRegion.accepts (region : MemoryRegion) (addr : UInt64) (memType : UInt8)
    (size : UInt32) : Bool :=
  region.memType == memType && region.startAddr ≤ addr &&
    addr + size.toUInt64 - 1 ≤ region.endAddr

/-- `CFS_IsValidMemoryAddress`. -/
def isValidMemoryAddress (addr : UInt64) (memType : UInt8) (size : UInt32) : Bool :=
  memoryRegions.any (·.accepts addr memType size)

/-- `CFS_GetMaxDataSize`. -/
def getMaxDataSize (memType : UInt8) : UInt32 :=
  if memType = MM.ram then MM.maxLoadFileDataRam
  else if memType = MM.eeprom then MM.maxLoadFileDataEeprom
  else 1024

end CFS
