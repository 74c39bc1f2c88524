-- SUMMARY: What the file-name check accepts, and when an accepted name stays inside the allowed directories.
import CfsMmFuzzer.Base.LexPath
import CfsMmFuzzer.Common.Utils

/-!
# Path containment

`MM_VerifyFileName` looks for `../` and for `..\` and compares the name with the
allowed directories. A double dot can then only be the last component of an
accepted name, where no slash follows it. Such a name leaves its directory when
nothing stands between the directory and the double dot.
-/

namespace MM

open LexPath

def slash : UInt8 := 0x2F
def dot : UInt8 := 0x2E

/-- The components of a file name after lexical normalisation. -/
def resolvePath (fileName : CString) : List (List UInt8) := resolve slash dot fileName.chars

/-- The name denotes something inside one of the allowed directories. -/
def Contained (fileName : CString) : Prop :=
  ∃ path ∈ CFS.validPaths, resolvePath path <+: resolvePath fileName

/-- The name is an allowed directory followed by a double dot, with at most
empty components and single dots between them. -/
def Escapes (fileName : CString) : Prop :=
  ∃ path ∈ CFS.validPaths, ∃ rest,
    fileName.chars = path.chars ++ rest ∧ Climbs dot (components slash rest)

/-! ## The check -/

theorem hasTraversal_iff {fileName : CString} :
    hasTraversal fileName = true ↔
      parentSlash.chars <:+: fileName.chars ∨ parentBackslash.chars <:+: fileName.chars := by
  rw [hasTraversal, Bool.or_eq_true, CString.strstr_isSome_iff, CString.strstr_isSome_iff]

theorem hasValidPath_iff {fileName : CString} :
    hasValidPath fileName = true ↔ ∃ path ∈ CFS.validPaths, path.chars <+: fileName.chars := by
  simp only [hasValidPath, List.any_eq_true, beq_iff_eq, CString.strncmp_length_eq_zero_iff]

theorem verifyFileName_eq_success_iff {fileName : CString} :
    verifyFileName (some fileName) = CFE.success ↔
      (0 < fileName.length ∧ fileName.length < OS.maxPathLen) ∧
        hasTraversal fileName = false ∧ hasValidPath fileName = true := by
  have hne : CFS.errorInvalidFile ≠ CFE.success := by decide
  simp only [verifyFileName]
  split
  case isTrue hlen =>
    simp only [hne, false_iff]
    rintro ⟨⟨h0, h64⟩, -⟩
    omega
  case isFalse hlen =>
    have hlen' : 0 < fileName.length ∧ fileName.length < OS.maxPathLen := by omega
    cases hasTraversal fileName <;> cases hasValidPath fileName <;> simp [hne, hlen']

/-! ## The table of directories -/

theorem validPaths_eq_dropLast {path : CString} (h : path ∈ CFS.validPaths) :
    path.chars = path.chars.dropLast ++ [slash] := by
  revert path
  decide

/-- No directory stands in the parent of another one, nor in its own. -/
theorem validPaths_not_in_parent {path path' : CString} (h : path ∈ CFS.validPaths)
    (h' : path' ∈ CFS.validPaths) : ¬ resolvePath path' <+: (resolvePath path).dropLast := by
  have hall : ∀ path ∈ CFS.validPaths, ∀ path' ∈ CFS.validPaths,
      ¬ resolvePath path' <+: (resolvePath path).dropLast := by decide +kernel
  exact hall path h path' h'

theorem validPaths_components {path c : List UInt8} (h : path ∈ CFS.validPaths.map (·.chars))
    (hc : c ∈ components slash path.dropLast) : ¬ [dot, dot] <:+ c := by
  have hall : ∀ path ∈ CFS.validPaths.map (·.chars),
      ∀ c ∈ components slash path.dropLast, ¬ [dot, dot] <:+ c := by decide +kernel
  exact hall path h c hc

theorem validPaths_no_backslash {path : CString} (h : path ∈ CFS.validPaths) :
    0x5C ∉ path.chars := by
  revert path
  decide

/-- Below an allowed directory: the name without the directory's last slash. -/
theorem eq_dropLast_append_cons {path : CString} (h : path ∈ CFS.validPaths) {cs rest : List UInt8}
    (hcs : cs = path.chars ++ rest) : cs = path.chars.dropLast ++ slash :: rest := by
  rw [hcs]
  conv_lhs => rw [validPaths_eq_dropLast h]
  simp

theorem resolvePath_eq_dropLast {path : CString} (h : path ∈ CFS.validPaths) :
    resolvePath path = resolve slash dot path.chars.dropLast := by
  have hpath := eq_dropLast_append_cons h (List.append_nil path.chars).symm
  rw [resolvePath, hpath, resolve_append_cons]
  simp [components, step_of_skip]

/-! ## Containment -/

/-- In a name without `../` a double dot is the last component. -/
theorem dotdot_not_mem_dropLast {fileName : CString} (h : hasTraversal fileName = false)
    {d rest : List UInt8} (hname : fileName.chars = d ++ slash :: rest) :
    [dot, dot] ∉ (components slash rest).dropLast := by
  intro hmem
  obtain ⟨xs, ys, hsplit⟩ := List.append_of_mem hmem
  have hcomp := (List.dropLast_append_getLast (components_ne_nil slash rest)).symm
  rw [hsplit, List.append_assoc, List.cons_append] at hcomp
  have hdots : [dot, dot] ++ [slash] <:+: rest := infix_of_components_eq (by simp) hcomp
  have hrest : rest <:+: fileName.chars := by
    rw [hname]
    exact ((List.suffix_cons slash rest).trans (List.suffix_append d _)).isInfix
  have htrav : hasTraversal fileName = true := hasTraversal_iff.mpr (.inl (hdots.trans hrest))
  rw [h] at htrav
  cases htrav

theorem contained_of_not_escapes {fileName : CString}
    (h : verifyFileName (some fileName) = CFE.success) (hesc : ¬ Escapes fileName) :
    Contained fileName := by
  obtain ⟨-, htrav, hvalid⟩ := verifyFileName_eq_success_iff.mp h
  obtain ⟨path, hpath, rest, hrest⟩ := hasValidPath_iff.mp hvalid
  have hname := eq_dropLast_append_cons hpath hrest.symm
  refine ⟨path, hpath, ?_⟩
  rw [resolvePath_eq_dropLast hpath, resolvePath, hname]
  exact prefix_resolve_of_not_climbs (dotdot_not_mem_dropLast htrav hname)
    (fun hclimb => hesc ⟨path, hpath, rest, hrest.symm, hclimb⟩)

/-- An escaping name resolves outside every allowed directory. -/
theorem not_contained_of_escapes {fileName : CString} (h : Escapes fileName) :
    ¬ Contained fileName := by
  rintro ⟨path', hpath', hprefix⟩
  obtain ⟨path, hpath, rest, hrest, hclimb⟩ := h
  rw [resolvePath.eq_def fileName, eq_dropLast_append_cons hpath hrest, resolve_of_climbs hclimb,
    ← resolvePath_eq_dropLast hpath] at hprefix
  exact validPaths_not_in_parent hpath hpath' hprefix

/-- In an escaping name the double dot is the last component, so no slash follows it. -/
theorem not_parentSlash_of_escapes {fileName : CString} (h : Escapes fileName) :
    ¬ parentSlash.chars <:+: fileName.chars := by
  intro hslash
  obtain ⟨path, hpath, rest, hrest, ds, hds, hskip⟩ := h
  obtain ⟨pre, post, hsplit⟩ := hslash
  have hname : fileName.chars = (pre ++ [dot, dot]) ++ slash :: post := by
    rw [← hsplit]
    simp [parentSlash, dot, slash, show CString.ascii "../" = [0x2E, 0x2E, 0x2F] from rfl]
  -- the component before the slash ends in the double dot and is not the last one
  have hcomp := congrArg (components slash) hname
  rw [eq_dropLast_append_cons hpath hrest, components_append_cons, components_append_cons, hds]
    at hcomp
  have hdrop := congrArg List.dropLast hcomp
  rw [List.dropLast_append_of_ne_nil (components_ne_nil slash post), ← List.append_assoc,
    List.dropLast_concat] at hdrop
  have hlast := List.getLast_mem (components_ne_nil slash (pre ++ [dot, dot]))
  have hsuffix : [dot, dot] <:+
      (components slash (pre ++ [dot, dot])).getLast (components_ne_nil slash _) :=
    suffix_getLast_components (by decide)
  have hmem := List.mem_append_left (components slash post).dropLast hlast
  rw [← hdrop, List.mem_append] at hmem
  rcases hmem with hmem | hmem
  · exact validPaths_components (List.mem_map_of_mem hpath) hmem hsuffix
  · rcases hskip _ hmem with hc | hc <;> rw [hc] at hsuffix <;>
      exact absurd hsuffix.length_le (by decide)

/-- An escaping name has no backslash. -/
theorem not_backslash_of_escapes {fileName : CString} (h : Escapes fileName) :
    0x5C ∉ fileName.chars := by
  intro hmem
  obtain ⟨path, hpath, rest, hrest, ds, hds, hskip⟩ := h
  rw [hrest, List.mem_append] at hmem
  have hmem := hmem.resolve_left (validPaths_no_backslash hpath)
  rcases eq_sep_or_mem_of_mem slash hmem with hsep | ⟨c, hc, hin⟩
  · exact absurd hsep (by decide)
  · rw [hds, List.mem_append, List.mem_singleton] at hc
    rcases hc with hc | rfl
    · rcases hskip c hc with rfl | rfl <;> exact absurd hin (by decide)
    · exact absurd hin (by decide)

/-- An escaping name holds neither `../` nor `..\`. -/
theorem hasTraversal_of_escapes {fileName : CString} (h : Escapes fileName) :
    hasTraversal fileName = false := by
  rw [← Bool.not_eq_true, hasTraversal_iff]
  intro htrav
  cases htrav with
  | inl hslash => exact not_parentSlash_of_escapes h hslash
  | inr hback => exact not_backslash_of_escapes h (hback.subset (by decide))

/-- A short enough escaping name is accepted. -/
theorem verifyFileName_of_escapes {fileName : CString} (h : Escapes fileName)
    (hlen : fileName.length < OS.maxPathLen) : verifyFileName (some fileName) = CFE.success := by
  have htrav := hasTraversal_of_escapes h
  obtain ⟨path, hpath, rest, hrest, -⟩ := h
  have hpos : 0 < fileName.length := by
    rw [CString.length, eq_dropLast_append_cons hpath hrest]
    simp
  refine verifyFileName_eq_success_iff.mpr ⟨⟨hpos, hlen⟩, htrav, ?_⟩
  exact hasValidPath_iff.mpr ⟨path, hpath, rest, hrest.symm⟩

/-- **The check contains a name exactly when the name does not escape** (or is
too long to be accepted at all). -/
theorem contained_of_verifyFileName_iff (fileName : CString) :
    (verifyFileName (some fileName) = CFE.success → Contained fileName) ↔
      ¬ (fileName.length < OS.maxPathLen ∧ Escapes fileName) := by
  constructor
  · rintro h ⟨hlen, hesc⟩
    exact not_contained_of_escapes hesc (h (verifyFileName_of_escapes hesc hlen))
  · intro h hok
    have hlen := (verifyFileName_eq_success_iff.mp hok).1.2
    exact contained_of_not_escapes hok fun hesc => h ⟨hlen, hesc⟩

/-- The name `/cf/apps/..` is accepted and denotes `/cf`. -/
theorem verifyFileName_accepts_parent :
    verifyFileName (some ⟨CString.ascii "/cf/apps/..", by decide⟩) = CFE.success ∧
      ¬ Contained ⟨CString.ascii "/cf/apps/..", by decide⟩ := by
  refine ⟨by decide +kernel, ?_⟩
  rintro ⟨path, hpath, hprefix⟩
  have hall : ∀ path ∈ CFS.validPaths,
      ¬ resolvePath path <+: resolvePath ⟨CString.ascii "/cf/apps/..", by decide⟩ := by
    decide +kernel
  exact hall path hpath hprefix

end MM
