-- SUMMARY: The bounded copy and append of the harness: what they leave in a buffer and behind it.
import CfsMmFuzzer.Harness.MmLoad

/-!
# The string macros

`CFS_SAFE_STRNCPY` leaves a padded string with room for the terminator,
whatever the buffer held, and `CFS_SAFE_STRNCAT` keeps it one. Its unsigned
bound relies on that.
-/

namespace CFS

section Macros

variable {n m : Nat} {size : UInt64}

/-- `CFS_SAFE_STRNCPY` with the size of the array: the first `n - 1` characters, padded. -/
theorem safeStrncpy_eq (dst : CharArray n) (src : CString) (hsize : size.toNat = n)
    (hn : 0 < n) : safeStrncpy dst src size = some (.pad n (src.take (n - 1))) := by
  have hpos : size > 0 := UInt64.lt_iff_toNat_lt.mpr (by simpa [hsize] using hn)
  have hlast : (size - 1).toNat = n - 1 := by
    have hlt := size.toNat_lt
    rw [UInt64.toNat_sub, UInt64.toNat_one, hsize]
    omega
  unfold safeStrncpy
  rw [if_pos hpos, hlast]
  exact CharArray.strncpy_set_last hn

/-- The bound of `CFS_SAFE_STRNCAT` does not wrap around when the string leaves
room for its terminator. -/
theorem toNat_strncat_bound {k : Nat} (hk : k < size.toNat) :
    (size - UInt64.ofNat k - 1).toNat = size.toNat - k - 1 := by
  have hlt := size.toNat_lt
  rw [UInt64.toNat_sub, UInt64.toNat_sub, UInt64.toNat_ofNat', UInt64.toNat_one]
  omega

/-- `CFS_SAFE_STRNCAT` after a copy: as many characters as fit, padded. -/
theorem safeStrncat_pad {s : CString} (t : CString) (hsize : size.toNat = n)
    (hs : s.length < n) :
    safeStrncat (.pad n s) t size = some (.pad n (s.append (t.take (n - s.length - 1)))) := by
  have hpos : size > 0 := UInt64.lt_iff_toNat_lt.mpr (by simp [hsize]; omega)
  have hbound : (size - UInt64.ofNat s.length - 1).toNat = n - s.length - 1 := by
    rw [toNat_strncat_bound (by omega), hsize]
  unfold safeStrncat
  rw [if_pos hpos, CharArray.cstring?_pad hs]
  simp only [Option.bind_eq_bind, Option.bind_some, hbound]
  exact CharArray.strncat_pad (by omega)

/-! ## Building a string -/

theorem length_take_lt (s : CString) (hn : 0 < n) : (s.take (n - 1)).length < n := by
  rw [CString.length_take]
  omega

/-- Appending to a string that is cut off at the bound, and cutting off again. -/
theorem safeStrncat_take (s t : CString) (hsize : size.toNat = n) (hn : 0 < n) :
    safeStrncat (.pad n (s.take (n - 1))) t size =
      some (.pad n ((s.append t).take (n - 1))) := by
  have hroom : n - (s.take (n - 1)).length - 1 = n - 1 - (s.take (n - 1)).length := by omega
  rw [safeStrncat_pad t hsize (length_take_lt s hn), hroom, CString.take_append_take]

/-! ## The memory behind the buffer -/

theorem safeStrncpy_append {dst dst' : CharArray n} {src : CString}
    (h : safeStrncpy dst src size = some dst') (rest : CharArray m) :
    safeStrncpy (dst.append rest) src size = some (dst'.append rest) := by
  unfold safeStrncpy at h ⊢
  split at h
  case isTrue hpos =>
    obtain ⟨copied, hcopy, hset⟩ := Option.bind_eq_some_iff.mp h
    rw [if_pos hpos, CharArray.strncpy_append hcopy rest, Option.bind_some]
    exact CharArray.set_append hset rest
  case isFalse hpos =>
    cases h
    rw [if_neg hpos]

theorem safeStrncat_append {dst dst' : CharArray n} {src : CString}
    (h : safeStrncat dst src size = some dst') (rest : CharArray m) :
    safeStrncat (dst.append rest) src size = some (dst'.append rest) := by
  unfold safeStrncat at h ⊢
  split at h
  case isTrue hpos =>
    obtain ⟨s, hs, hcat⟩ := Option.bind_eq_some_iff.mp h
    rw [if_pos hpos, CharArray.cstring?_append hs rest]
    exact CharArray.strncat_append hcat rest
  case isFalse hpos =>
    cases h
    rw [if_neg hpos]

end Macros

/-- **A copy and an append under one bound** leave the first `n - 1` characters
of the two strings and a terminator. The bound of the append is the room that
is left, and no byte behind the buffer changes. -/
theorem safeStrncpy_safeStrncat {n : UInt64} (hn : 1 ≤ n.toNat) (dst : CharArray n.toNat)
    (a b : CString) :
    ∃ copied built : CharArray n.toNat,
      safeStrncpy dst a n = some copied ∧
      safeStrncat copied b n = some built ∧
      (∃ s, copied.cstring? = some s ∧ s.length + 1 ≤ n.toNat ∧
        (n - UInt64.ofNat s.length - 1).toNat = n.toNat - s.length - 1) ∧
      built.Terminated ∧
      built.cstring? = some ((a.append b).take (n.toNat - 1)) ∧
      ∀ (m : Nat) (rest : CharArray m),
        safeStrncpy (dst.append rest) a n = some (copied.append rest) ∧
        safeStrncat (copied.append rest) b n = some (built.append rest) := by
  have hcopy := safeStrncpy_eq dst a rfl hn
  have happend := safeStrncat_take a b rfl hn
  have hroom : (a.take (n.toNat - 1)).length < n.toNat := length_take_lt a hn
  have hfit : ((a.append b).take (n.toNat - 1)).length < n.toNat := length_take_lt _ hn
  refine ⟨_, _, hcopy, happend, ?_, CharArray.pad_terminated hfit, CharArray.cstring?_pad hfit, ?_⟩
  · exact ⟨_, CharArray.cstring?_pad hroom, hroom, toNat_strncat_bound hroom⟩
  · intro m rest
    exact ⟨safeStrncpy_append hcopy rest, safeStrncat_append happend rest⟩

/-- In 24 bytes the default name fits, and three characters of the suffix. -/
theorem safeStrncpy_safeStrncat_cut :
    1 ≤ (24 : UInt64).toNat ∧
    ∃ copied built : CharArray (24 : UInt64).toNat,
      safeStrncpy ⟨List.replicate 24 0x55, rfl⟩ MM.defaultFilename 24 = some copied ∧
      safeStrncat copied MM.filenameSuffix 24 = some built ∧
      built.cstring? = some ⟨CString.ascii "/cf/apps/default.bintes", by decide⟩ := by
  have hsize : 1 ≤ (24 : UInt64).toNat := by decide
  obtain ⟨copied, built, hcopy, happend, -, -, hbuilt, -⟩ :=
    safeStrncpy_safeStrncat hsize ⟨List.replicate 24 0x55, rfl⟩ MM.defaultFilename
      MM.filenameSuffix
  refine ⟨hsize, copied, built, hcopy, happend, hbuilt.trans (congrArg some ?_)⟩
  decide

end CFS
