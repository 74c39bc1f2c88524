-- SUMMARY: The file-name step for any path table: what it leaves in the field, and the one length it gets wrong.
import CfsMmFuzzer.Load.Decoder

/-!
# File-name composition

The step copies a directory and appends the suffix where it fits. Its guard asks
for one byte more than the suffix and its terminator need, so a directory of 51
characters, with which the name would fill the field exactly, goes without.
-/

namespace MM

/-- What the file-name step is for: the directory followed by the test file where
both fit with a terminator, and otherwise as much of the directory as fits. -/
def intendedFileName (path : CString) : CString :=
  if path.length + testFile.length + 1 ≤ OS.maxPathLen then path.append testFile
  else path.take (OS.maxPathLen - 1)

/-- The field holds the string and a terminator behind it. -/
def Holds (field : CharArray OS.maxPathLen) (s : CString) : Prop :=
  field.Terminated ∧ field.cstring? = some s

theorem intendedFileName_length (path : CString) :
    (intendedFileName path).length < OS.maxPathLen := by
  unfold intendedFileName
  split
  case isTrue hfits =>
    rw [CString.length_append]
    exact hfits
  case isFalse =>
    rw [CString.length_take]
    exact (Nat.min_le_left _ _).trans_lt (by decide)

/-- At every other length the step leaves the intended name, padded with NULs. -/
theorem composeFileName_of_length_ne (path : CString) (fileName : CharArray OS.maxPathLen)
    (h : path.length ≠ 51) :
    composeFileName path fileName = some (.pad _ (intendedFileName path)) := by
  have hfile : testFile.length = 12 := rfl
  have hguard : path.length + testFile.length + 1 < OS.maxPathLen ↔
      path.length + testFile.length + 1 ≤ OS.maxPathLen := by
    simp only [OS.maxPathLen]
    omega
  rw [composeFileName_eq, filenameSuffix_eq, intendedFileName]
  simp only [hguard]

/-- A directory of 51 characters is left without the suffix. -/
theorem composeFileName_of_length_eq (path : CString) (fileName : CharArray OS.maxPathLen)
    (h : path.length = 51) : composeFileName path fileName = some (.pad _ path) := by
  have hsuffix : filenameSuffix.length = 12 := rfl
  rw [composeFileName_eq, if_neg (by simp only [OS.maxPathLen]; omega),
    CString.take_of_length_le (by simp only [OS.maxPathLen]; omega)]

/-- **The file-name step is exact except at one length.** No store leaves the
field, whatever the path and the old contents. -/
theorem composeFileName_intended_iff (path : CString) (fileName : CharArray OS.maxPathLen) :
    (∃ field, composeFileName path fileName = some field ∧ Holds field (intendedFileName path)) ↔
      path.length ≠ 51 := by
  constructor
  · intro h hlen
    obtain ⟨field, hfield, -, hstring⟩ := h
    have hfile : testFile.length = 12 := rfl
    have hpath : path.length < OS.maxPathLen := by rw [hlen]; decide
    rw [composeFileName_of_length_eq path fileName hlen, Option.some.injEq] at hfield
    rw [← hfield, CharArray.cstring?_pad hpath, Option.some.injEq, intendedFileName,
      if_pos (by rw [hlen, hfile]; decide)] at hstring
    have hlength := congrArg CString.length hstring
    rw [CString.length_append] at hlength
    omega
  · intro h
    have hlen := intendedFileName_length path
    exact ⟨_, composeFileName_of_length_ne path fileName h, CharArray.pad_terminated hlen,
      CharArray.cstring?_pad hlen⟩

/-- A path of 51 letters: the name would have 63, and is left without its suffix. -/
theorem composeFileName_drops_suffix :
    ¬ ∃ field, composeFileName ⟨List.replicate 51 0x61, by decide⟩ (.zeros _) = some field ∧
      Holds field (intendedFileName ⟨List.replicate 51 0x61, by decide⟩) := by
  intro h
  obtain ⟨field, hfield, -, hstring⟩ := h
  rw [composeFileName_of_length_eq _ _ (by decide), Option.some.injEq] at hfield
  rw [← hfield] at hstring
  exact absurd hstring (by decide +kernel)

end MM
