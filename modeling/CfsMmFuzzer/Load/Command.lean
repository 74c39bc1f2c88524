-- SUMMARY: The commands the harness is meant to produce, as an abstract type, and their packets.
import CfsMmFuzzer.Harness.MmLoad

/-!
# Load commands

A `Command` is what a fuzz input chooses: a memory type, a size within the limit
of that type, a CRC, a destination, and a directory. It cannot be built out of
bounds. `toPacket` is the C object that stands for it, and distinct commands
have distinct packets.
-/

namespace MM

/-! ## Memory types -/

inductive MemType where
  | ram
  | eeprom
  deriving DecidableEq, Repr

namespace MemType

/-- The value of the `MemType` field. -/
def code : MemType → UInt8
  | ram => MM.ram
  | eeprom => MM.eeprom

/-- The load limit. -/
def limit : MemType → Nat
  | ram => 1024 * 1024
  | eeprom => 128 * 1024

/-- The memory type that the first input byte selects. -/
def ofByte (b : UInt8) : MemType := if b % 2 = 0 then ram else eeprom

/-- The default address of the memory type on a target. -/
def base (t : CFS.Target) : MemType → UInt64
  | ram => t.defaultRamAddr
  | eeprom => t.defaultEepromAddr

theorem code_inj {m m' : MemType} : m.code = m'.code ↔ m = m' := by
  cases m <;> cases m' <;> decide

theorem code_eq_or (m : MemType) : m.code = MM.ram ∨ m.code = MM.eeprom := by
  cases m
  · exact .inl rfl
  · exact .inr rfl

theorem exists_code_eq {c : UInt8} (h : c = MM.ram ∨ c = MM.eeprom) :
    ∃ m : MemType, m.code = c := by
  rcases h with rfl | rfl
  · exact ⟨ram, rfl⟩
  · exact ⟨eeprom, rfl⟩

theorem base_eq (t : CFS.Target) (m : MemType) : base t m = defaultAddr t m.code := by
  cases m <;> rfl

theorem limit_eq (m : MemType) : m.limit = (maxLoadFileData m.code).toNat := by
  cases m <;> rfl

theorem limit_bounds (m : MemType) : 0 < m.limit ∧ m.limit ≤ 2 ^ 20 := by
  cases m <;> decide

theorem mod_two_eq (b : UInt8) : b % 2 = 0 ∨ b % 2 = 1 := by
  have h : (b % 2).toNat = 0 ∨ (b % 2).toNat = 1 := by
    rw [UInt8.toNat_mod]
    exact Nat.mod_two_eq_zero_or_one b.toNat
  exact h.imp UInt8.toNat_inj.mp UInt8.toNat_inj.mp

theorem code_ofByte (b : UInt8) : (ofByte b).code = b % 2 + 1 := by
  rcases mod_two_eq b with h | h <;> simp only [ofByte, h] <;> rfl

theorem base_lt (t : CFS.Target) (m : MemType) : (base t m).toNat < 2 ^ 31 := by
  cases t <;> cases m <;> decide

end MemType

/-! ## Commands -/

/-- A destination: an entry of the symbol table, or an offset from the default
address of the memory type. -/
inductive Destination where
  | symbol (i : Fin CFS.numValidSymbols)
  | direct (offset : Fin (2 ^ 31))
  deriving DecidableEq

/-- A load command within the limits of the harness. -/
@[ext]
structure Command where
  memType        : MemType
  numOfBytes     : UInt32
  numOfBytes_pos : 0 < numOfBytes.toNat
  numOfBytes_le  : numOfBytes.toNat ≤ memType.limit
  crc            : UInt32
  dest           : Destination
  path           : Fin CFS.numValidPaths

/-- The symbol table's entry. -/
def symbolAt (i : Fin CFS.numValidSymbols) : CString := CFS.validSymbols.get i

theorem noNul_testFile : 0 ∉ CString.ascii "testfile.bin" := by decide

/-- The file that every load command names, below one of the directories. -/
def testFile : CString := ⟨CString.ascii "testfile.bin", noNul_testFile⟩

/-- It is what the constructor appends. -/
theorem filenameSuffix_eq : filenameSuffix = testFile := rfl

/-- The file name below a directory. -/
def fileNameAt (i : Fin CFS.numValidPaths) : CString := (CFS.validPaths.get i).append testFile

namespace Destination

/-- The 64-bit offset field of a direct destination. -/
def address (t : CFS.Target) (m : MemType) (offset : Fin (2 ^ 31)) : UInt64 :=
  m.base t + UInt64.ofNat offset

def toSymAddr (t : CFS.Target) (m : MemType) : Destination → SymAddr
  | symbol i => ⟨.pad _ (symbolAt i), .zeros 4, 0⟩
  | direct offset => ⟨.zeros _, .zeros 4, address t m offset⟩

end Destination

/-- The header of every packet the harness builds. -/
def loadHeader : CFE.CommandHeader := ⟨0x1888, 0xC000, 120, 0⟩

/-- The C object that stands for a command. -/
def Command.toPacket (t : CFS.Target) (c : Command) : LoadMemFromFileCmd where
  cmdHeader := loadHeader
  memType := c.memType.code
  padding1 := .zeros 3
  numOfBytes := c.numOfBytes
  crc := c.crc
  padding2 := .zeros 4
  destSymAddress := c.dest.toSymAddr t c.memType
  fileName := .pad _ (fileNameAt c.path)

/-! ## The tables -/

theorem symbolAt_length (i : Fin CFS.numValidSymbols) :
    0 < (symbolAt i).length ∧ (symbolAt i).length < OS.maxApiName := by
  have hall : ∀ s ∈ CFS.validSymbols, 0 < s.length ∧ s.length < OS.maxApiName := by decide
  exact hall _ (List.get_mem _ i)

theorem symbolAt_inj {i j : Fin CFS.numValidSymbols} : symbolAt i = symbolAt j ↔ i = j :=
  List.Nodup.get_inj_iff (by decide +kernel)

theorem validPaths_length {path : CString} (h : path ∈ CFS.validPaths) : path.length ≤ 17 := by
  revert path
  decide

theorem fileNameAt_length (i : Fin CFS.numValidPaths) :
    0 < (fileNameAt i).length ∧ (fileNameAt i).length ≤ 29 := by
  have hpath := validPaths_length (List.get_mem CFS.validPaths i)
  have hfile : testFile.length = 12 := rfl
  rw [fileNameAt, CString.length_append]
  omega

theorem fileNameAt_inj {i j : Fin CFS.numValidPaths} : fileNameAt i = fileNameAt j ↔ i = j := by
  refine ⟨fun h => ?_, fun h => h ▸ rfl⟩
  have hchars := congrArg CString.chars h
  simp only [fileNameAt, CString.chars_append, List.append_cancel_right_eq] at hchars
  exact (List.Nodup.get_inj_iff (by decide +kernel)).mp (CString.ext hchars)

/-! ## Packets determine commands -/

theorem Destination.toNat_address (t : CFS.Target) (m : MemType) (offset : Fin (2 ^ 31)) :
    (address t m offset).toNat = (m.base t).toNat + offset := by
  have hbase := m.base_lt t
  have hoff := offset.isLt
  rw [address, UInt64.toNat_add, UInt64.toNat_ofNat']
  omega

theorem Destination.toSymAddr_inj {t : CFS.Target} {m : MemType} {d d' : Destination} :
    d.toSymAddr t m = d'.toSymAddr t m ↔ d = d' := by
  have hpad : ∀ i, CharArray.pad OS.maxApiName (symbolAt i) ≠ .zeros _ := by
    intro i h
    have hlen := symbolAt_length i
    rw [CharArray.zeros_eq_pad, CharArray.pad_inj hlen.2 (by decide)] at h
    rw [h] at hlen
    exact absurd hlen.1 (by decide)
  cases d with
  | symbol i =>
    cases d' with
    | symbol j =>
      simp [toSymAddr, CharArray.pad_inj (symbolAt_length i).2 (symbolAt_length j).2, symbolAt_inj]
    | direct o => simp [toSymAddr, hpad]
  | direct o =>
    cases d' with
    | symbol j => simp [toSymAddr, (hpad j).symm]
    | direct o' =>
      simp only [toSymAddr, SymAddr.mk.injEq, true_and, direct.injEq]
      rw [← UInt64.toNat_inj, toNat_address, toNat_address, Nat.add_left_cancel_iff, Fin.val_inj]

/-- **Distinct commands have distinct packets.** -/
theorem Command.toPacket_inj {t : CFS.Target} {c c' : Command} :
    c.toPacket t = c'.toPacket t ↔ c = c' := by
  refine ⟨fun h => ?_, fun h => h ▸ rfl⟩
  simp only [toPacket, LoadMemFromFileCmd.mk.injEq, true_and] at h
  obtain ⟨hmem, hnum, hcrc, hdest, hfile⟩ := h
  have hmem := MemType.code_inj.mp hmem
  have hlen := fun i => (fileNameAt_length i).2.trans_lt (show 29 < OS.maxPathLen by decide)
  rw [hmem, Destination.toSymAddr_inj] at hdest
  rw [CharArray.pad_inj (hlen _) (hlen _), fileNameAt_inj] at hfile
  exact Command.ext hmem hnum hcrc hdest hfile

end MM
