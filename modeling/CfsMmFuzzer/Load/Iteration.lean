-- SUMMARY: One fuzz iteration end to end: its status for every input, and which combinations can succeed at all.
import CfsMmFuzzer.Load.Encoder
import CfsMmFuzzer.Load.Validation

/-!
# One fuzz iteration

The packet of a command passes every check of its fields, and its exact address
is far below `2 ^ 64`. The status of an iteration is therefore decided by where
that address lies in the memory map.
-/

namespace MM

/-! ## The packet of a command under the simulation -/

namespace Command

/-- The symbol name in the packet, empty for a direct destination. -/
def symName (c : Command) : CString :=
  match c.dest with
  | .symbol i => symbolAt i
  | .direct _ => ⟨[], List.not_mem_nil⟩

/-- The address that the command means. -/
def address (t : CFS.Target) (c : Command) : Nat :=
  match c.dest with
  | .symbol i => t.defaultRamAddr.toNat + 0x1000 * (symbolAt i).length
  | .direct offset => (c.memType.base t).toNat + offset

theorem symName_toPacket (t : CFS.Target) (c : Command) :
    (c.toPacket t).destSymAddress.symName.cstring? = some c.symName := by
  simp only [toPacket, symName]
  cases c.dest with
  | symbol i => exact CharArray.cstring?_pad (symbolAt_length i).2
  | direct offset => rfl

theorem fileName_toPacket (t : CFS.Target) (c : Command) :
    (c.toPacket t).fileName.cstring? = some (fileNameAt c.path) :=
  CharArray.cstring?_pad ((fileNameAt_length c.path).2.trans_lt (by decide))

theorem exactAddress_toPacket (t : CFS.Target) (c : Command) :
    exactAddress t (c.toPacket t).destSymAddress c.symName = c.address t := by
  simp only [toPacket, symName, address]
  cases c.dest with
  | symbol i => exact if_neg (symbolAt_length i).1.ne'
  | direct offset => exact Destination.toNat_address t c.memType offset

/-- The address of a command is below `2 ^ 32`. -/
theorem address_lt (t : CFS.Target) (c : Command) : c.address t < 2 ^ 32 := by
  unfold address
  cases c.dest with
  | symbol i =>
      have hram := t.defaultRamAddr_bounds
      have hlen : (symbolAt i).length < 20 := (symbolAt_length i).2
      simp only
      omega
  | direct offset =>
      have hbase := c.memType.base_lt t
      have hoff := offset.isLt
      simp only
      omega

theorem address_add_lt (t : CFS.Target) (c : Command) :
    c.address t + c.numOfBytes.toNat < 2 ^ 64 := by
  have haddr := c.address_lt t
  have hnum := c.numOfBytes.toNat_lt
  omega

end Command

/-- No file name that the harness composes contains a traversal. -/
theorem hasTraversal_fileNameAt (i : Fin CFS.numValidPaths) :
    hasTraversal (fileNameAt i) = false := by
  have hall : ∀ path ∈ CFS.validPaths, hasTraversal (path.append testFile) = false := by
    decide +kernel
  exact hall _ (List.get_mem _ i)

theorem Command.fieldsAccepted (t : CFS.Target) (c : Command) :
    FieldsAccepted (c.toPacket t) (fileNameAt c.path) where
  memType := c.memType.code_eq_or
  numOfBytes_pos := c.numOfBytes_pos
  numOfBytes_le := UInt32.le_iff_toNat_le.mpr (c.memType.limit_eq ▸ c.numOfBytes_le)
  fileName_pos := (fileNameAt_length c.path).1
  fileName_clean := hasTraversal_fileNameAt c.path

/-- The simulation gives the packet of a command the status of its exact range. -/
theorem Command.exists_simulation (t : CFS.Target) (c : Command) :
    ∃ status, loadMemFromFileCmdSimulation t (some (c.toPacket t)) = some status ∧
      status ∉ [OS.invalidPointer, CFS.errorInvalidMemtype, CFS.errorInvalidSize,
        CFS.errorInvalidFile] ∧
      ExactStatus t c.memType.code (c.address t) c.numOfBytes.toNat status := by
  have hsim := simulation_of_fieldsAccepted (t := t) (c.fileName_toPacket t) (c.symName_toPacket t)
    (c.fieldsAccepted t)
  rw [c.exactAddress_toPacket t] at hsim
  refine ⟨_, hsim, addressStatus_not_mem _ _ _ _, ?_⟩
  exact exactStatus_addressStatus t c.memType.code c.numOfBytes_pos (c.address_add_lt t).le

/-! ## The outcome of an iteration -/

/-- **The outcome of one iteration**, for every target, byte order, block and
input of packet length: no check of a field fails, no addition wraps, and the
status tells exactly where the range of the packet lies. -/
theorem fuzzerTestOneInput_outcome (t : CFS.Target) (e : ByteOrder) (block : LoadMemFromFileCmd)
    {data : List UInt8} (h : sizeofLoadMemFromFileCmd ≤ data.length) :
    ∃ packet symName status,
      loadConstructPacket t e (some block) data = some (some packet) ∧
      packet.destSymAddress.symName.cstring? = some symName ∧
      loadMemFromFileCmdSimulation t (some packet) = some status ∧
      fuzzerTestOneInput t e (some block) data = some (0, some status) ∧
      status ∉ [OS.invalidPointer, CFS.errorInvalidMemtype, CFS.errorInvalidSize,
        CFS.errorInvalidFile] ∧
      (∀ w : UInt64, (defaultAddr t packet.memType).toNat + (w &&& 0x7FFFFFFF).toNat < 2 ^ 64) ∧
      exactAddress t packet.destSymAddress symName + packet.numOfBytes.toNat < 2 ^ 64 ∧
      ExactStatus t packet.memType (exactAddress t packet.destSymAddress symName)
        packet.numOfBytes.toNat status := by
  have hpacket := loadConstructPacket_eq t e block h
  generalize Command.ofInput e data = c at hpacket
  obtain ⟨status, hsim, hfields, hexact⟩ := c.exists_simulation t
  refine ⟨c.toPacket t, c.symName, status, hpacket, c.symName_toPacket t, hsim, ?_, hfields,
    ?_, ?_, ?_⟩
  · rw [fuzzerTestOneInput, if_neg (Nat.not_lt.mpr h), hpacket]
    simp only [Option.bind_eq_bind, Option.bind_some, hsim]
  · intro w
    have hbase := c.memType.base_lt t
    have hoff := (offsetIndex w).isLt
    rw [MemType.base_eq] at hbase
    rw [and_mask_eq, UInt64.toNat_ofNat_of_lt' (hoff.trans (by decide))]
    exact (Nat.add_lt_add hbase hoff).trans (by decide)
  · rw [c.exactAddress_toPacket t]
    exact c.address_add_lt t
  · rw [c.exactAddress_toPacket t]
    exact hexact

/-- The outcome of the iteration on 120 zero bytes. -/
theorem fuzzerTestOneInput_outcome_zeros :
    ∃ packet symName status,
      loadConstructPacket .default .little (some .cleared) (List.replicate 120 0) =
        some (some packet) ∧
      packet.destSymAddress.symName.cstring? = some symName ∧
      loadMemFromFileCmdSimulation .default (some packet) = some status ∧
      fuzzerTestOneInput .default .little (some .cleared) (List.replicate 120 0) =
        some (0, some status) ∧
      status ∉ [OS.invalidPointer, CFS.errorInvalidMemtype, CFS.errorInvalidSize,
        CFS.errorInvalidFile] ∧
      (∀ w : UInt64,
        (defaultAddr .default packet.memType).toNat + (w &&& 0x7FFFFFFF).toNat < 2 ^ 64) ∧
      exactAddress .default packet.destSymAddress symName + packet.numOfBytes.toNat < 2 ^ 64 ∧
      ExactStatus .default packet.memType (exactAddress .default packet.destSymAddress symName)
        packet.numOfBytes.toNat status :=
  fuzzerTestOneInput_outcome .default .little .cleared (by decide)

/-! ## Live combinations -/

/-- The two addressing modes. -/
inductive AddrMode where
  | symbol
  | direct
  deriving DecidableEq, Repr

/-- A packet addresses by symbol when its symbol name is not empty. -/
def AddrMode.Of (mode : AddrMode) (packet : LoadMemFromFileCmd) : Prop :=
  ∃ symName, packet.destSymAddress.symName.cstring? = some symName ∧
    (mode = .symbol ↔ 0 < symName.length)

/-- Some input becomes a packet of the memory type and addressing mode that the
simulation accepts. -/
def Live (t : CFS.Target) (e : ByteOrder) (block : LoadMemFromFileCmd) (m : MemType)
    (mode : AddrMode) : Prop :=
  ∃ data packet, loadConstructPacket t e (some block) data = some (some packet) ∧
    packet.memType = m.code ∧ mode.Of packet ∧
    loadMemFromFileCmdSimulation t (some packet) = some CFE.success

/-- The addressing mode of a destination. -/
def Destination.mode : Destination → AddrMode
  | symbol _ => .symbol
  | direct _ => .direct

theorem addrMode_of_toPacket_iff {t : CFS.Target} {c : Command} {mode : AddrMode} :
    mode.Of (c.toPacket t) ↔ c.dest.mode = mode := by
  have hname : c.dest.mode = .symbol ↔ 0 < c.symName.length := by
    rw [Command.symName]
    cases c.dest with
    | symbol i => exact iff_of_true rfl (symbolAt_length i).1
    | direct offset => exact iff_of_false nofun (Nat.lt_irrefl 0)
  simp only [AddrMode.Of, c.symName_toPacket t, Option.some.injEq, exists_eq_left', ← hname]
  cases mode <;> cases c.dest.mode <;> decide

/-- A combination is live when a command of it has a mapped and aligned range. -/
theorem live_iff_exists_command {t : CFS.Target} {e : ByteOrder} {block : LoadMemFromFileCmd}
    {m : MemType} {mode : AddrMode} :
    Live t e block m mode ↔ ∃ c : Command, c.memType = m ∧ c.dest.mode = mode ∧
      CFS.Mapped m.code (c.address t) c.numOfBytes.toNat ∧
      t.memoryAlignment.toNat ∣ c.address t := by
  constructor
  · intro h
    obtain ⟨data, packet, hpacket, htype, hmode, hsim⟩ := h
    obtain rfl := eq_toPacket_of_loadConstructPacket hpacket
    generalize Command.ofInput e data = c at *
    obtain ⟨status, hstatus, -, hexact⟩ := c.exists_simulation t
    obtain rfl : status = CFE.success := Option.some.inj (hstatus.symm.trans hsim)
    obtain rfl := MemType.code_inj.mp htype
    obtain ⟨hmapped, halign⟩ := hexact.success.mp rfl
    exact ⟨c, rfl, addrMode_of_toPacket_iff.mp hmode, hmapped, halign⟩
  · intro h
    obtain ⟨c, rfl, hmode, hmapped, halign⟩ := h
    obtain ⟨status, hstatus, -, hexact⟩ := c.exists_simulation t
    obtain rfl := hexact.success.mpr ⟨hmapped, halign⟩
    refine ⟨c.toInput e, c.toPacket t, ?_, rfl, addrMode_of_toPacket_iff.mpr hmode, hstatus⟩
    rw [loadConstructPacket_eq t e block (c.length_toInput e), c.ofInput_toInput]

theorem mapped_ram_iff {a n : Nat} :
    CFS.Mapped ram a n ↔ (0x20000000 ≤ a ∧ a + n ≤ 0x20080000) ∨
      (0x20080000 ≤ a ∧ a + n ≤ 0x20100000) ∨ (0x60000000 ≤ a ∧ a + n ≤ 0x68000000) := by
  simp [CFS.Mapped, CFS.memoryRegions, CFS.MemoryRegion.Covers, WrapRange.Within, ram, eeprom]

theorem mapped_eeprom_iff {a n : Nat} :
    CFS.Mapped eeprom a n ↔ (0x08080000 ≤ a ∧ a + n ≤ 0x08100000) ∨
      (0x08100000 ≤ a ∧ a + n ≤ 0x08200000) := by
  simp [CFS.Mapped, CFS.memoryRegions, CFS.MemoryRegion.Covers, WrapRange.Within, ram, eeprom]

/-- Where symbols are resolved to, whatever the memory type. -/
theorem Command.address_of_symbol (t : CFS.Target) {c : Command} (h : c.dest.mode = .symbol) :
    t.defaultRamAddr.toNat ≤ c.address t ∧ c.address t ≤ t.defaultRamAddr.toNat + 0x13000 := by
  unfold address
  cases hdest : c.dest with
  | symbol i =>
      have hlen : (symbolAt i).length < 20 := (symbolAt_length i).2
      simp only
      omega
  | direct offset =>
      rw [hdest] at h
      cases h

theorem Command.base_le_address (t : CFS.Target) {c : Command} (h : c.dest.mode = .direct) :
    (c.memType.base t).toNat ≤ c.address t := by
  unfold address
  cases hdest : c.dest with
  | symbol i =>
      rw [hdest] at h
      cases h
  | direct offset => exact Nat.le_add_right _ _

/-- No symbol is resolved to EEPROM: the simulation starts from the RAM address. -/
theorem not_live_symbol_eeprom (t : CFS.Target) (e : ByteOrder) (block : LoadMemFromFileCmd) :
    ¬ Live t e block .eeprom .symbol := by
  intro h
  obtain ⟨c, -, hmode, hmapped, -⟩ := live_iff_exists_command.mp h
  have hram := t.defaultRamAddr_bounds
  have haddr := Command.address_of_symbol t hmode
  have hcells := mapped_eeprom_iff.mp hmapped
  omega

/-- No symbol is resolved to memory on SPARC, whose RAM is not in the map. -/
theorem not_live_symbol_sparc (e : ByteOrder) (block : LoadMemFromFileCmd) :
    ¬ Live .sparc e block .ram .symbol := by
  intro h
  obtain ⟨c, -, hmode, hmapped, -⟩ := live_iff_exists_command.mp h
  have hram : CFS.Target.sparc.defaultRamAddr.toNat = 0x40000000 := rfl
  have haddr := Command.address_of_symbol .sparc hmode
  have hcells := mapped_ram_iff.mp hmapped
  omega

/-- No direct address reaches EEPROM on SPARC: its base is above the mapped regions. -/
theorem not_live_direct_sparc (e : ByteOrder) (block : LoadMemFromFileCmd) :
    ¬ Live .sparc e block .eeprom .direct := by
  intro h
  obtain ⟨c, hm, hmode, hmapped, -⟩ := live_iff_exists_command.mp h
  have hbase : (MemType.eeprom.base .sparc).toNat = 0x30000000 := rfl
  have haddr := Command.base_le_address .sparc hmode
  have hcells := mapped_eeprom_iff.mp hmapped
  rw [hm] at haddr
  omega

/-- An offset from the default address to a mapped one. -/
def liveOffset : CFS.Target → MemType → Fin (2 ^ 31)
  | .vxworks, .eeprom => 0x80000
  | .sparc, .ram => 0x20000000
  | _, _ => 0

theorem live_direct {t : CFS.Target} {m : MemType} (h : ¬ (t = .sparc ∧ m = .eeprom))
    (e : ByteOrder) (block : LoadMemFromFileCmd) : Live t e block m .direct := by
  rw [live_iff_exists_command]
  refine ⟨⟨m, 1, Nat.one_pos, m.limit_bounds.1, 0, .direct (liveOffset t m), pathIndex 0⟩,
    rfl, rfl, ?_⟩
  revert h
  cases t <;> cases m <;> decide

theorem live_symbol_ram {t : CFS.Target} (h : t ≠ .sparc) (e : ByteOrder)
    (block : LoadMemFromFileCmd) : Live t e block .ram .symbol := by
  rw [live_iff_exists_command]
  refine ⟨⟨.ram, 1, Nat.one_pos, by decide, 0, .symbol (symbolIndex 0), pathIndex 0⟩, rfl, rfl, ?_⟩
  revert h
  cases t <;> decide

/-- **The live combinations**: direct addressing, but for EEPROM on SPARC, and
RAM by symbol, but on SPARC. -/
theorem live_iff (t : CFS.Target) (e : ByteOrder) (block : LoadMemFromFileCmd) (m : MemType)
    (mode : AddrMode) :
    Live t e block m mode ↔
      (mode = .direct ∧ ¬ (t = .sparc ∧ m = .eeprom)) ∨
      (mode = .symbol ∧ m = .ram ∧ t ≠ .sparc) := by
  constructor
  · intro h
    cases mode with
    | symbol =>
        cases m with
        | ram => exact .inr ⟨rfl, rfl, fun ht => not_live_symbol_sparc e block (ht ▸ h)⟩
        | eeprom => exact absurd h (not_live_symbol_eeprom t e block)
    | direct =>
        refine .inl ⟨rfl, ?_⟩
        rintro ⟨rfl, rfl⟩
        exact not_live_direct_sparc e block h
  · rintro (⟨rfl, h⟩ | ⟨rfl, rfl, h⟩)
    · exact live_direct h e block
    · exact live_symbol_ram h e block

/-- On the default target EEPROM cannot be reached by symbol. -/
theorem not_live_default_eeprom_symbol : ¬ Live .default .little .cleared .eeprom .symbol :=
  not_live_symbol_eeprom .default .little .cleared

end MM
