-- SUMMARY: The names in a command: which scans stay inside their field, and when the two symbol resolvers agree.
import CfsMmFuzzer.Load.Iteration

/-!
# Names in a command

`SymName` and `FileName` are read as C strings, so a field without a terminator
is read past its end. The model has no result then, which makes the result of a
function tell whether all of its scans stayed inside their fields. Every command
that the harness builds is terminated in both.
-/

namespace MM

/-! ## Bounded scans -/

/-- The simulation gets as far as the file name: the checks of type and size pass. -/
def ScansFileName (cmd : LoadMemFromFileCmd) : Prop :=
  (cmd.memType = ram ∨ cmd.memType = eeprom) ∧ cmd.numOfBytes ≠ 0 ∧
    cmd.numOfBytes ≤ maxLoadFileData cmd.memType

/-- The simulation gets as far as the symbol name: the file name passes as well. -/
def ScansSymName (cmd : LoadMemFromFileCmd) : Prop :=
  ScansFileName cmd ∧ ∃ fileName, cmd.fileName.cstring? = some fileName ∧
    0 < fileName.length ∧ hasTraversal fileName = false

/-- No scan of the simulation leaves its field. -/
def SimulationScansInField (cmd : LoadMemFromFileCmd) : Prop :=
  (ScansFileName cmd → cmd.fileName.Terminated) ∧
  (ScansSymName cmd → cmd.destSymAddress.symName.Terminated)

theorem resolveInline_isSome_iff {t : CFS.Target} {dest : SymAddr} :
    (resolveInline t dest).isSome ↔ dest.symName.Terminated := by
  rw [← CharArray.cstring?_isSome_iff]
  unfold resolveInline
  cases dest.symName.cstring? with
  | none => rfl
  | some name =>
    simp only [Option.bind_eq_bind, Option.bind_some]
    split <;> simp

/-- A command that an earlier check rejects is not scanned at all. -/
theorem simulation_isSome_of_not_scansFileName (t : CFS.Target) {cmd : LoadMemFromFileCmd}
    (h : ¬ ScansFileName cmd) : (loadMemFromFileCmdSimulation t (some cmd)).isSome := by
  rw [loadMemFromFileCmdSimulation]
  split_ifs with htype hzero hmax
  · rfl
  · rfl
  · rfl
  · refine absurd ⟨?_, hzero, UInt32.not_lt.mp hmax⟩ h
    by_contra hneither
    exact htype (not_or.mp hneither)

/-- Past the early checks the file name decides, and then the symbol name. -/
theorem simulation_isSome_of_scansFileName (t : CFS.Target) {cmd : LoadMemFromFileCmd}
    (h : ScansFileName cmd) :
    (loadMemFromFileCmdSimulation t (some cmd)).isSome ↔
      cmd.fileName.Terminated ∧ (ScansSymName cmd → cmd.destSymAddress.symName.Terminated) := by
  obtain ⟨htype, hzero, hmax⟩ := h
  have htype' : ¬ (cmd.memType ≠ ram ∧ cmd.memType ≠ eeprom) := by
    intro hneither
    exact htype.elim hneither.1 hneither.2
  rw [loadMemFromFileCmdSimulation, if_neg htype', if_neg hzero, if_neg (UInt32.not_lt.mpr hmax),
    ← CharArray.cstring?_isSome_iff, ← resolveInline_isSome_iff (t := t)]
  unfold ScansSymName
  cases cmd.fileName.cstring? with
  | none => simp
  | some fileName =>
    simp only [Option.bind_eq_bind, Option.bind_some, Option.isSome_some, true_and,
      Option.some.injEq, exists_eq_left']
    split_ifs with hempty htrav
    · exact iff_of_true rfl fun hscan => absurd hempty hscan.2.1.ne'
    · exact iff_of_true rfl fun hscan => absurd htrav (by simp [hscan.2.2])
    · have hscan : ScansFileName cmd ∧ 0 < fileName.length ∧ hasTraversal fileName = false :=
        ⟨⟨htype, hzero, hmax⟩, Nat.pos_of_ne_zero hempty, by simpa using htrav⟩
      simp only [hscan, and_self, true_imp_iff]
      cases resolveInline t cmd.destSymAddress with
      | none => simp
      | some addr =>
        simp only [Option.bind_some, Option.isSome_some, iff_true]
        split_ifs <;> rfl

theorem simulation_isSome_iff (t : CFS.Target) (cmd : LoadMemFromFileCmd) :
    (loadMemFromFileCmdSimulation t (some cmd)).isSome ↔ SimulationScansInField cmd := by
  by_cases h : ScansFileName cmd
  · rw [simulation_isSome_of_scansFileName t h, SimulationScansInField, imp_iff_right h]
  · exact iff_of_true (simulation_isSome_of_not_scansFileName t h)
      ⟨fun hscan => absurd hscan h, fun hscan => absurd hscan.1 h⟩

theorem resolveSymAddr_isSome_iff (sa : SymAddr) (out : UInt64) :
    (resolveSymAddr (some sa) (some out)).isSome ↔ sa.symName.Terminated := by
  rw [← CharArray.cstring?_isSome_iff]
  cases hname : sa.symName.cstring? with
  | none => simp [resolveSymAddr, hname]
  | some name => simp [resolveSymAddr_eq hname]

/-- Every packet that the harness builds is terminated in both names. -/
theorem Command.toPacket_terminated (t : CFS.Target) (c : Command) :
    (c.toPacket t).fileName.Terminated ∧ (c.toPacket t).destSymAddress.symName.Terminated := by
  rw [← CharArray.cstring?_isSome_iff, ← CharArray.cstring?_isSome_iff, c.fileName_toPacket t,
    c.symName_toPacket t]
  exact ⟨rfl, rfl⟩

/-- **Where the scans stay**: a function reads past a name exactly when it gets
as far as that name and the field holds no terminator. A name that is found is
shorter than its field, and the harness builds terminated names only. -/
theorem scans_in_field (t : CFS.Target) (e : ByteOrder) (block cmd : LoadMemFromFileCmd)
    (sa : SymAddr) (out : UInt64) :
    ((loadMemFromFileCmdSimulation t (some cmd)).isSome ↔ SimulationScansInField cmd) ∧
    ((resolveSymAddr (some sa) (some out)).isSome ↔ sa.symName.Terminated) ∧
    (∀ fileName ∈ cmd.fileName.cstring?, fileName.length ≤ 63) ∧
    (∀ symName ∈ cmd.destSymAddress.symName.cstring?, symName.length ≤ 19) ∧
    (∀ symName ∈ sa.symName.cstring?, symName.length ≤ 19) ∧
    (∀ data packet, loadConstructPacket t e (some block) data = some (some packet) →
      packet.fileName.Terminated ∧ packet.destSymAddress.symName.Terminated) := by
  refine ⟨simulation_isSome_iff t cmd, resolveSymAddr_isSome_iff sa out, ?_, ?_, ?_, ?_⟩
  · intro fileName hfile
    exact Nat.le_of_lt_succ (CharArray.length_lt_of_cstring? hfile)
  · intro symName hsym
    exact Nat.le_of_lt_succ (CharArray.length_lt_of_cstring? hsym)
  · intro symName hsym
    exact Nat.le_of_lt_succ (CharArray.length_lt_of_cstring? hsym)
  · intro data packet hpacket
    rw [eq_toPacket_of_loadConstructPacket hpacket]
    exact (Command.ofInput e data).toPacket_terminated t

/-- A command whose file name fills its field without a terminator. -/
def unterminatedCmd : LoadMemFromFileCmd :=
  { LoadMemFromFileCmd.cleared with
    memType := ram
    numOfBytes := 8
    fileName := ⟨List.replicate OS.maxPathLen 0x41, by decide⟩ }

/-- A symbol address whose name fills its field without a terminator. -/
def unterminatedSymAddr : SymAddr := ⟨⟨List.replicate OS.maxApiName 0x41, by decide⟩, .zeros 4, 0⟩

/-- Both functions read past a field that is filled to its last byte. -/
theorem scans_leave_field :
    loadMemFromFileCmdSimulation .default (some unterminatedCmd) = none ∧
      resolveSymAddr (some unterminatedSymAddr) (some 0) = none := by
  decide +kernel

/-! ## The two resolvers -/

theorem ofNat_exactAddress_eq_iff {t : CFS.Target} {dest : SymAddr} {symName : CString}
    (h : 0 < symName.length) :
    UInt64.ofNat (exactAddress t dest symName) =
        UInt64.ofNat (exactAddress .default dest symName) ↔
      t.defaultRamAddr.toNat = CFS.Target.default.defaultRamAddr.toNat := by
  have ht := t.defaultRamAddr_bounds
  have hd := CFS.Target.default.defaultRamAddr_bounds
  unfold exactAddress
  rw [if_neg h.ne', if_neg h.ne', ← UInt64.toNat_inj, UInt64.toNat_ofNat', UInt64.toNat_ofNat']
  omega

/-- The two targets whose default RAM address is not the literal of `OS_SymbolLookup`. -/
theorem defaultRamAddr_eq_default_iff (t : CFS.Target) :
    t.defaultRamAddr.toNat = CFS.Target.default.defaultRamAddr.toNat ↔ t ≠ .arm ∧ t ≠ .sparc := by
  cases t <;> decide

/-- **The two resolvers agree** exactly on direct addresses and on the targets
whose RAM starts at the literal of the lookup. `out` is what the variable for
the resolved address holds before the call. -/
theorem resolveInline_eq_resolveSymAddr_iff (t : CFS.Target) {dest : SymAddr} {symName : CString}
    (h : dest.symName.cstring? = some symName) (out : UInt64) :
    (∃ addr, resolveInline t dest = some addr ∧
        resolveSymAddr (some dest) (some out) = some (CFE.success, some addr)) ↔
      symName.length = 0 ∨ (t ≠ .arm ∧ t ≠ .sparc) := by
  simp only [resolveInline_eq t h, resolveSymAddr_eq h, Option.some.injEq, Prod.mk.injEq, true_and,
    exists_eq_left']
  rcases Nat.eq_zero_or_pos symName.length with hzero | hpos
  · have hsame : exactAddress t dest symName = exactAddress .default dest symName := by
      unfold exactAddress
      rw [if_pos hzero, if_pos hzero]
    exact iff_of_true (by rw [hsame]) (.inl hzero)
  · rw [eq_comm, ofNat_exactAddress_eq_iff hpos, defaultRamAddr_eq_default_iff]
    exact (or_iff_right hpos.ne').symm

/-- The symbol `MM_AppData` with offset 0. -/
def appDataAddr : SymAddr := ⟨.pad _ (symbolAt (symbolIndex 5)), .zeros 4, 0⟩

/-- On SPARC the two resolvers place the same symbol at different addresses. -/
theorem resolvers_differ_sparc :
    ¬ ∃ addr, resolveInline .sparc appDataAddr = some addr ∧
      resolveSymAddr (some appDataAddr) (some 0) = some (CFE.success, some addr) := by
  intro h
  obtain ⟨addr, hinline, hlib⟩ := h
  have hinline' : resolveInline .sparc appDataAddr = some 0x4000A000 := by decide +kernel
  have hlib' : resolveSymAddr (some appDataAddr) (some 0) =
      some (CFE.success, some 0x2000A000) := by decide +kernel
  rw [hinline', Option.some.injEq] at hinline
  rw [hlib', ← hinline] at hlib
  exact absurd hlib (by decide)

theorem resolveInline_eq_resolveSymAddr_iff_sparc :
    (∃ addr, resolveInline .sparc appDataAddr = some addr ∧
        resolveSymAddr (some appDataAddr) (some 0) = some (CFE.success, some addr)) ↔
      (symbolAt (symbolIndex 5)).length = 0 ∨
        (CFS.Target.sparc ≠ .arm ∧ CFS.Target.sparc ≠ .sparc) :=
  resolveInline_eq_resolveSymAddr_iff .sparc
    (CharArray.cstring?_pad (symbolAt_length (symbolIndex 5)).2) 0

end MM
