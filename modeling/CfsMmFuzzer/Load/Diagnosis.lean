-- SUMMARY: Which failure a status stands for: the first failed check of a call, and the one pair of checks that share a status.
import CfsMmFuzzer.Load.Validation

/-!
# Diagnosing a failure

A call of the simulation fails at the first of six checks. `firstFailure` names
that check, and the status is a function of it. The function is injective but
for one clash: `OS_INVALID_POINTER` and `CFS_MM_ERROR_INVALID_SIZE` have the
same value.
-/

namespace MM

/-- A command whose names are NUL-terminated. -/
structure NamedCmd where
  cmd : LoadMemFromFileCmd
  fileName : CString
  symName : CString
  fileName_eq : cmd.fileName.cstring? = some fileName
  symName_eq : cmd.destSymAddress.symName.cstring? = some symName

namespace NamedCmd

/-- The size check of the simulation fails. -/
def BadSize (c : NamedCmd) : Prop :=
  c.cmd.numOfBytes = 0 ∨ c.cmd.numOfBytes > maxLoadFileData c.cmd.memType

/-- The file-name checks of the simulation fail. -/
def BadFileName (c : NamedCmd) : Prop :=
  c.fileName.length = 0 ∨ hasTraversal c.fileName = true

/-- The memory type check of the simulation fails. -/
def BadMemType (c : NamedCmd) : Prop := c.cmd.memType ≠ ram ∧ c.cmd.memType ≠ eeprom

/-- The resolved address. -/
def resolvedAddr (t : CFS.Target) (c : NamedCmd) : UInt64 :=
  UInt64.ofNat (exactAddress t c.cmd.destSymAddress c.symName)

instance (c : NamedCmd) : Decidable c.BadSize := inferInstanceAs (Decidable (_ ∨ _))
instance (c : NamedCmd) : Decidable c.BadFileName := inferInstanceAs (Decidable (_ ∨ _))
instance (c : NamedCmd) : Decidable c.BadMemType := inferInstanceAs (Decidable (_ ∧ _))

end NamedCmd

/-- The classes of calls, by the first check that fails. -/
inductive Failure where
  | nullPointer
  | memType
  | size
  | fileName
  | address
  | alignment
  | none
  deriving DecidableEq, Repr

/-- The first check that a call fails. A call is `none` for the `NULL` pointer. -/
def firstFailure (t : CFS.Target) : Option NamedCmd → Failure
  | .none => .nullPointer
  | some c =>
      if c.BadMemType then .memType
      else if c.BadSize then .size
      else if c.BadFileName then .fileName
      else if !CFS.isValidMemoryAddress (c.resolvedAddr t) c.cmd.memType c.cmd.numOfBytes then
        .address
      else if c.resolvedAddr t % t.memoryAlignment ≠ 0 then .alignment
      else .none

/-- The status of a class. -/
def Failure.status : Failure → Int32
  | nullPointer => OS.invalidPointer
  | memType => CFS.errorInvalidMemtype
  | size => CFS.errorInvalidSize
  | fileName => CFS.errorInvalidFile
  | address => CFS.errorInvalidAddr
  | alignment => CFS.errorAlignment
  | none => CFE.success

/-- The status of a call is that of its first failure. -/
theorem simulation_eq_status (t : CFS.Target) (call : Option NamedCmd) :
    loadMemFromFileCmdSimulation t (call.map (·.cmd)) = some (firstFailure t call).status := by
  cases call with
  | none => rfl
  | some c =>
    have haddr : resolveInline t c.cmd.destSymAddress = some (c.resolvedAddr t) :=
      resolveInline_eq t c.symName_eq
    have hsize : c.BadSize ↔
        c.cmd.numOfBytes = 0 ∨ c.cmd.numOfBytes > maxLoadFileData c.cmd.memType := Iff.rfl
    have hfile : c.BadFileName ↔
        c.fileName.length = 0 ∨ hasTraversal c.fileName = true := Iff.rfl
    rw [Option.map_some, loadMemFromFileCmdSimulation, c.fileName_eq]
    simp only [Option.bind_eq_bind, Option.bind_some, haddr, firstFailure, NamedCmd.BadMemType,
      hsize, hfile, ite_or, apply_ite Failure.status, apply_ite some]
    rfl

/-! ## The clash -/

/-- One of two calls passes `NULL`, the other a command that fails the size check. -/
def Clash (call₁ call₂ : Option NamedCmd) : Prop :=
  (call₁ = none ∧ ∃ c ∈ call₂, ¬ c.BadMemType ∧ c.BadSize) ∨
  (call₂ = none ∧ ∃ c ∈ call₁, ¬ c.BadMemType ∧ c.BadSize)

/-- The statuses tell the classes apart, but for one pair. -/
theorem Failure.status_eq_iff {f g : Failure} :
    f.status = g.status ↔
      f = g ∨ (f = nullPointer ∧ g = size) ∨ (g = nullPointer ∧ f = size) := by
  cases f <;> cases g <;> decide

theorem firstFailure_eq_nullPointer_iff {t : CFS.Target} {call : Option NamedCmd} :
    firstFailure t call = .nullPointer ↔ call = none := by
  cases call with
  | none => exact iff_of_true rfl rfl
  | some c =>
    refine iff_of_false ?_ (Option.some_ne_none c)
    simp only [firstFailure]
    split_ifs <;> decide

theorem firstFailure_eq_size_iff {t : CFS.Target} {call : Option NamedCmd} :
    firstFailure t call = .size ↔ ∃ c ∈ call, ¬ c.BadMemType ∧ c.BadSize := by
  cases call with
  | none => simp [firstFailure]
  | some c =>
    simp only [Option.mem_def, Option.some.injEq, exists_eq_left', firstFailure]
    split_ifs with htype hsize <;> simp [*]

theorem clash_iff (t : CFS.Target) {call₁ call₂ : Option NamedCmd} :
    Clash call₁ call₂ ↔
      (firstFailure t call₁ = .nullPointer ∧ firstFailure t call₂ = .size) ∨
      (firstFailure t call₂ = .nullPointer ∧ firstFailure t call₁ = .size) := by
  simp only [Clash, firstFailure_eq_nullPointer_iff, firstFailure_eq_size_iff]

/-- **What a status diagnoses**: two calls with one status have failed the same
check, except that `NULL` shares its status with a bad size. Success is the
status of exactly the calls that fail no check. -/
theorem status_diagnoses_iff (t : CFS.Target) (call₁ call₂ : Option NamedCmd) :
    ((loadMemFromFileCmdSimulation t (call₁.map (·.cmd)) =
          loadMemFromFileCmdSimulation t (call₂.map (·.cmd)) →
        firstFailure t call₁ = firstFailure t call₂) ↔ ¬ Clash call₁ call₂) ∧
    (loadMemFromFileCmdSimulation t (call₁.map (·.cmd)) = some CFE.success ↔
      firstFailure t call₁ = .none) := by
  simp only [simulation_eq_status, Option.some.injEq]
  constructor
  · rw [Failure.status_eq_iff, clash_iff t]
    constructor
    · intro h hclash
      have hsame := h (.inr hclash)
      rcases hclash with ⟨h₁, h₂⟩ | ⟨h₂, h₁⟩ <;> rw [h₁, h₂] at hsame <;> cases hsame
    · intro h hstatus
      exact hstatus.resolve_right h
  · have hsuccess : CFE.success = Failure.none.status := rfl
    rw [hsuccess, Failure.status_eq_iff]
    simp

/-- A command of no bytes. -/
def emptyCmd : NamedCmd where
  cmd := { LoadMemFromFileCmd.cleared with memType := ram }
  fileName := ⟨CString.ascii "", by decide⟩
  symName := ⟨CString.ascii "", by decide⟩
  fileName_eq := rfl
  symName_eq := rfl

/-- `NULL` and a command of no bytes get the same status, for different failures. -/
theorem null_and_empty_clash :
    ¬ (loadMemFromFileCmdSimulation .default ((none : Option NamedCmd).map (·.cmd)) =
        loadMemFromFileCmdSimulation .default ((some emptyCmd).map (·.cmd)) →
      firstFailure .default none = firstFailure .default (some emptyCmd)) := by
  intro h
  exact absurd (h (by decide)) (by decide)

end MM
