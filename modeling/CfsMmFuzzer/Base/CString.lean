-- SUMMARY: C strings in fixed-size character arrays: scanning, bounded copy and append, comparison, and substring search.
import Mathlib.Data.List.Infix
import Mathlib.Tactic.Common

/-!
# C strings and character arrays

A `CharArray n` is a C object of type `char[n]`, and a `CString` is what a
`const char *` denotes: the characters before the first NUL. The functions of
`<string.h>` are given by their documented behaviour. An access that would
leave the array has no result (`none`), so a function that returns `some` has
touched its own array only.
-/

/-- A NUL-terminated string, as the characters before its terminator. -/
structure CString where
  chars : List UInt8
  noNul : 0 ∉ chars
  deriving DecidableEq

/-- A C array of `n` characters. -/
structure CharArray (n : Nat) where
  bytes : List UInt8
  length_bytes : bytes.length = n
  deriving DecidableEq

attribute [simp] CharArray.length_bytes

namespace CString

/-- The characters of an ASCII string literal. -/
def ascii (s : String) : List UInt8 := s.toList.map fun c => UInt8.ofNat c.toNat

theorem ext {s t : CString} (h : s.chars = t.chars) : s = t := by
  cases s; cases t; cases h; rfl

/-- A table of string literals. -/
def table (ss : List String) (h : ∀ s ∈ ss, 0 ∉ ascii s) : List CString :=
  ss.pmap (fun s hs => ⟨ascii s, hs⟩) h

/-- `strlen`. -/
def length (s : CString) : Nat := s.chars.length

def append (s t : CString) : CString where
  chars := s.chars ++ t.chars
  noNul := by simpa using ⟨s.noNul, t.noNul⟩

/-- The first `k` characters of a string. -/
def take (s : CString) (k : Nat) : CString where
  chars := s.chars.take k
  noNul := fun h => s.noNul (List.mem_of_mem_take h)

@[simp] theorem chars_append (s t : CString) : (s.append t).chars = s.chars ++ t.chars := rfl
@[simp] theorem chars_take (s : CString) (k : Nat) : (s.take k).chars = s.chars.take k := rfl

@[simp] theorem length_append (s t : CString) :
    (s.append t).length = s.length + t.length := by
  simp [length]

@[simp] theorem length_take (s : CString) (k : Nat) : (s.take k).length = min k s.length := by
  simp [length]

theorem take_of_length_le {s : CString} {k : Nat} (h : s.length ≤ k) : s.take k = s :=
  ext (List.take_of_length_le h)

/-- Filling up the first `k` characters of `s` with `t`. -/
theorem take_append_take (s t : CString) (k : Nat) :
    (s.take k).append (t.take (k - (s.take k).length)) = (s.append t).take k := by
  have hroom : t.chars.take (k - min k s.length) = t.chars.take (k - s.length) := by
    congr 1
    omega
  refine ext ?_
  simp only [chars_append, chars_take, length_take, hroom]
  exact List.take_append.symm

/-! ## `strstr` -/

/-- Position of the first occurrence of `needle`, if there is one. -/
def findSub (needle : List UInt8) : List UInt8 → Option Nat
  | [] => if needle.isPrefixOf [] then some 0 else none
  | c :: cs =>
      if needle.isPrefixOf (c :: cs) then some 0 else (findSub needle cs).map (· + 1)

/-- `strstr(s, t)`, as an index into `s` instead of a pointer. -/
def strstr (s t : CString) : Option Nat := findSub t.chars s.chars

theorem findSub_isSome_iff {needle hay : List UInt8} :
    (findSub needle hay).isSome ↔ needle <:+: hay := by
  induction hay with
  | nil => cases needle <;> simp [findSub]
  | cons c cs ih =>
      simp only [findSub, List.infix_cons_iff]
      split
      case isTrue h => simp [List.isPrefixOf_iff_prefix.mp h]
      case isFalse h =>
        have hpre : ¬ needle <+: c :: cs := fun hp => h (List.isPrefixOf_iff_prefix.mpr hp)
        simp [hpre, ih]

theorem strstr_isSome_iff {s t : CString} : (s.strstr t).isSome ↔ t.chars <:+: s.chars :=
  findSub_isSome_iff

/-! ## `strncmp` -/

/-- Compare at most `k` characters of two strings, the terminator counting as
the character 0. -/
def compareChars : List UInt8 → List UInt8 → Nat → Int
  | _, _, 0 => 0
  | [], [], _ + 1 => 0
  | [], d :: _, _ + 1 => - (d.toNat : Int)
  | c :: _, [], _ + 1 => c.toNat
  | c :: cs, d :: ds, k + 1 =>
      if c = d then compareChars cs ds k else (c.toNat : Int) - d.toNat

/-- `strncmp(s, t, k)`. -/
def strncmp (s t : CString) (k : Nat) : Int := compareChars s.chars t.chars k

theorem compareChars_eq_zero_iff {cs ds : List UInt8} (hd : 0 ∉ ds) :
    compareChars cs ds ds.length = 0 ↔ ds <+: cs := by
  induction ds generalizing cs with
  | nil => cases cs <;> simp [compareChars]
  | cons d ds ih =>
      simp only [List.mem_cons, not_or] at hd
      have hdn : d.toNat ≠ 0 := fun h => hd.1 (UInt8.toNat_inj.mp (by simpa using h.symm))
      cases cs with
      | nil => simp [compareChars, hdn]
      | cons c cs =>
          simp only [compareChars, List.length_cons, List.cons_prefix_cons]
          split
          case isTrue h => simp [h, ih hd.2]
          case isFalse h =>
            have hne : c.toNat ≠ d.toNat := fun hn => h (UInt8.toNat_inj.mp hn)
            have hsub : (c.toNat : Int) - d.toNat ≠ 0 := by omega
            simp [hsub, Ne.symm h]

/-- Comparing as many characters as `t` has tests whether `s` starts with `t`. -/
theorem strncmp_length_eq_zero_iff {s t : CString} :
    s.strncmp t t.length = 0 ↔ t.chars <+: s.chars :=
  compareChars_eq_zero_iff t.noNul

end CString

/-! ## Scanning for the terminator -/

/-- Read characters up to the first NUL. The scan has no result when it runs
off the end of the array. -/
def scan : List UInt8 → Option (List UInt8)
  | [] => none
  | c :: cs => if c = 0 then some [] else (scan cs).map (c :: ·)

theorem scan_eq_some_iff {bs cs : List UInt8} :
    scan bs = some cs ↔ 0 ∉ cs ∧ ∃ rest, bs = cs ++ 0 :: rest := by
  induction bs generalizing cs with
  | nil => simp [scan]
  | cons b bs ih =>
      by_cases hb : b = 0
      · subst hb
        constructor
        · intro h
          obtain rfl : cs = [] := by simpa [scan] using h.symm
          simp
        · rintro ⟨hcs, rest, hrest⟩
          cases cs with
          | nil => simp [scan]
          | cons c cs => simp_all
      · simp only [scan, hb, if_false, Option.map_eq_some_iff]
        constructor
        · rintro ⟨ds, hds, rfl⟩
          obtain ⟨hno, rest, rfl⟩ := ih.mp hds
          exact ⟨by simp [hno, Ne.symm hb], rest, rfl⟩
        · rintro ⟨hcs, rest, hrest⟩
          cases cs with
          | nil => simp_all
          | cons c cs =>
              simp only [List.cons_append, List.cons.injEq] at hrest
              simp only [List.mem_cons, not_or] at hcs
              obtain ⟨rfl, rfl⟩ := hrest
              exact ⟨cs, ih.mpr ⟨hcs.2, rest, rfl⟩, rfl⟩

theorem scan_isSome_iff {bs : List UInt8} : (scan bs).isSome ↔ 0 ∈ bs := by
  induction bs with
  | nil => simp [scan]
  | cons b bs ih =>
      by_cases hb : b = 0
      · simp [scan, hb]
      · simp [scan, hb, Ne.symm hb, ih]

theorem scan_append_zero {cs rest : List UInt8} (h : 0 ∉ cs) :
    scan (cs ++ 0 :: rest) = some cs :=
  scan_eq_some_iff.mpr ⟨h, rest, rfl⟩

namespace CharArray

variable {n : Nat}

theorem ext {a b : CharArray n} (h : a.bytes = b.bytes) : a = b := by
  cases a; cases b; cases h; rfl

@[simp] theorem bytes_inj {a b : CharArray n} : a.bytes = b.bytes ↔ a = b :=
  ⟨ext, fun h => h ▸ rfl⟩

/-- The array holds a terminator. -/
def Terminated (a : CharArray n) : Prop := 0 ∈ a.bytes

instance (a : CharArray n) : Decidable a.Terminated := inferInstanceAs (Decidable (0 ∈ a.bytes))

/-- The C string that starts at the first element of the array. -/
def cstring? (a : CharArray n) : Option CString :=
  match h : scan a.bytes with
  | none => none
  | some cs => some ⟨cs, (scan_eq_some_iff.mp h).1⟩

theorem cstring?_eq_some_iff {a : CharArray n} {s : CString} :
    a.cstring? = some s ↔ scan a.bytes = some s.chars := by
  unfold cstring?
  split
  case h_1 h => simp [h]
  case h_2 cs h =>
    constructor
    · intro hs
      cases hs
      exact h
    · intro hs
      exact congrArg some (CString.ext (Option.some.inj (h.symm.trans hs)))

theorem cstring?_isSome_iff {a : CharArray n} : a.cstring?.isSome ↔ a.Terminated := by
  rw [Terminated, ← scan_isSome_iff]
  unfold cstring?
  split <;> simp_all

/-- A string found in an array leaves room for its terminator. -/
theorem length_lt_of_cstring? {a : CharArray n} {s : CString} (h : a.cstring? = some s) :
    s.length < n := by
  obtain ⟨-, rest, hrest⟩ := scan_eq_some_iff.mp (cstring?_eq_some_iff.mp h)
  have hlen := congrArg List.length hrest
  simp only [length_bytes, List.length_append, List.length_cons] at hlen
  rw [CString.length]
  omega

/-! ## Stores -/

/-- `a[i] = c`. -/
def set (a : CharArray n) (i : Nat) (c : UInt8) : Option (CharArray n) :=
  if i < n then some ⟨a.bytes.set i c, by simp⟩ else none

/-- `memset(a, 0, n)`. -/
def zeros (n : Nat) : CharArray n := ⟨List.replicate n 0, by simp⟩

/-- `strncpy(dst, src, k)`: the first `k` characters of `src`, filled up with
NULs to exactly `k` stores. -/
def strncpy (dst : CharArray n) (src : CString) (k : Nat) : Option (CharArray n) :=
  if h : k ≤ n then
    some ⟨src.chars.take k ++ List.replicate (k - src.length) 0 ++ dst.bytes.drop k, by
      simp [CString.length]; omega⟩
  else none

/-- `strncat(dst, src, k)`: at most `k` characters of `src` from the terminator
of `dst` on, and a new terminator behind them. -/
def strncat (dst : CharArray n) (src : CString) (k : Nat) : Option (CharArray n) :=
  match dst.cstring? with
  | none => none
  | some s =>
      if h : s.length + min k src.length + 1 ≤ n then
        some ⟨s.chars ++ src.chars.take k ++
          0 :: dst.bytes.drop (s.length + min k src.length + 1), by
            simp [CString.length] at *; omega⟩
      else none

/-! ## Padded arrays

The array that holds a string and is zero from the string's end on. It is what
every bounded copy leaves behind. -/

/-- The string `s` in an array of `n` characters, cut off at `n` and filled up
with NULs. -/
def pad (n : Nat) (s : CString) : CharArray n :=
  ⟨s.chars.take n ++ List.replicate (n - s.length) 0, by simp [CString.length]; omega⟩

theorem bytes_pad {s : CString} (h : s.length ≤ n) :
    (pad n s).bytes = s.chars ++ List.replicate (n - s.length) 0 := by
  simp only [pad]
  rw [List.take_of_length_le (by simpa [CString.length] using h)]

theorem bytes_pad_of_lt {s : CString} (h : s.length < n) :
    (pad n s).bytes = s.chars ++ 0 :: List.replicate (n - s.length - 1) 0 := by
  rw [bytes_pad h.le, ← List.replicate_succ]
  congr 2
  omega

@[simp] theorem cstring?_pad {s : CString} (h : s.length < n) : (pad n s).cstring? = some s := by
  rw [cstring?_eq_some_iff, bytes_pad_of_lt h]
  exact scan_append_zero s.noNul

theorem pad_terminated {s : CString} (h : s.length < n) : (pad n s).Terminated :=
  cstring?_isSome_iff.mp (by simp [cstring?_pad h])

theorem pad_inj {s t : CString} (hs : s.length < n) (ht : t.length < n) :
    pad n s = pad n t ↔ s = t := by
  constructor
  · intro h
    have := congrArg cstring? h
    rwa [cstring?_pad hs, cstring?_pad ht, Option.some.injEq] at this
  · rintro rfl; rfl

theorem zeros_eq_pad : zeros n = pad n ⟨[], by simp⟩ := by
  apply ext
  simp [zeros, pad, CString.length]

theorem strncpy_of_le (dst : CharArray n) (src : CString) {k : Nat} (h : k ≤ n) :
    ∃ a, dst.strncpy src k = some a ∧
      a.bytes = src.chars.take k ++ List.replicate (k - src.length) 0 ++ dst.bytes.drop k := by
  exact ⟨_, by rw [strncpy, dif_pos h], rfl⟩

/-- A copy into all but the last element, with that element cleared, leaves the
padded string and nothing of the old contents. -/
theorem strncpy_set_last {dst : CharArray n} {src : CString} (h : 0 < n) :
    (dst.strncpy src (n - 1)).bind (·.set (n - 1) 0) = some (pad n (src.take (n - 1))) := by
  obtain ⟨a, ha, hbytes⟩ := strncpy_of_le dst src (Nat.sub_le n 1)
  rw [ha, Option.bind_some, set, if_pos (by omega)]
  have hlast : (dst.bytes.drop (n - 1)).length = 1 := by simp; omega
  obtain ⟨b, hb⟩ := List.length_eq_one_iff.mp hlast
  have hpre : (src.chars.take (n - 1) ++ List.replicate (n - 1 - src.length) 0).length = n - 1 := by
    simp [CString.length]; omega
  have hset : a.bytes.set (n - 1) 0 =
      src.chars.take (n - 1) ++ List.replicate (n - 1 - src.length) 0 ++ [0] := by
    rw [hbytes, hb, List.set_append_right _ _ (by omega), hpre]
    simp
  have hfill : List.replicate (n - 1 - src.length) (0 : UInt8) ++ [0] =
      List.replicate (n - min (n - 1) src.length) 0 := by
    rw [← List.replicate_succ']
    congr 1
    omega
  refine congrArg some (ext ?_)
  rw [bytes_pad (by rw [CString.length_take]; omega)]
  simp only [hset, List.append_assoc, hfill, CString.chars_take, CString.length_take]

/-- Appending to a padded string keeps it padded. -/
theorem strncat_pad {s t : CString} {k : Nat} (h : s.length + min k t.length < n) :
    (pad n s).strncat t k = some (pad n (s.append (t.take k))) := by
  have hs : s.length < n := by omega
  unfold strncat
  rw [cstring?_pad hs]
  simp only [dif_pos (show s.length + min k t.length + 1 ≤ n from h)]
  refine congrArg some (ext ?_)
  rw [bytes_pad_of_lt (s := s.append (t.take k)) (by simpa using h)]
  have hdrop : (pad n s).bytes.drop (s.length + min k t.length + 1) =
      List.replicate (n - (s.length + min k t.length) - 1) 0 := by
    rw [bytes_pad hs.le, List.drop_append, List.drop_of_length_le (by simp [CString.length]; omega)]
    simp only [List.nil_append, List.drop_replicate]
    congr 1
    rw [CString.length, CString.length]
    omega
  simp only [hdrop, CString.chars_append, CString.chars_take, CString.length_append,
    CString.length_take]

/-! ## The memory behind an array

An operation that succeeds on an array succeeds on any object that starts with
it, and leaves the rest of that object as it was. -/

/-- An array with the memory behind it. -/
def append (a : CharArray n) (rest : CharArray m) : CharArray (n + m) :=
  ⟨a.bytes ++ rest.bytes, by simp⟩

@[simp] theorem bytes_append (a : CharArray n) (rest : CharArray m) :
    (a.append rest).bytes = a.bytes ++ rest.bytes := rfl

theorem cstring?_append {a : CharArray n} {s : CString} (h : a.cstring? = some s)
    (rest : CharArray m) : (a.append rest).cstring? = some s := by
  obtain ⟨hno, tail, hbytes⟩ := scan_eq_some_iff.mp (cstring?_eq_some_iff.mp h)
  rw [cstring?_eq_some_iff, bytes_append, hbytes, List.append_assoc]
  exact scan_append_zero hno

theorem set_append {a a' : CharArray n} {i : Nat} {c : UInt8} (h : a.set i c = some a')
    (rest : CharArray m) : (a.append rest).set i c = some (a'.append rest) := by
  unfold set at h ⊢
  split at h
  case isTrue hi =>
    cases h
    rw [if_pos (by omega)]
    refine congrArg some (ext ?_)
    simp only [bytes_append]
    exact List.set_append_left i c (by simpa using hi)
  case isFalse => cases h

theorem strncpy_append {a a' : CharArray n} {src : CString} {k : Nat}
    (h : a.strncpy src k = some a') (rest : CharArray m) :
    (a.append rest).strncpy src k = some (a'.append rest) := by
  unfold strncpy at h ⊢
  split at h
  case isTrue hk =>
    cases h
    rw [dif_pos (by omega)]
    refine congrArg some (ext ?_)
    simp only [bytes_append, List.append_assoc]
    rw [List.drop_append_of_le_length (by simpa using hk)]
  case isFalse => cases h

theorem strncat_append {a a' : CharArray n} {src : CString} {k : Nat}
    (h : a.strncat src k = some a') (rest : CharArray m) :
    (a.append rest).strncat src k = some (a'.append rest) := by
  unfold strncat at h ⊢
  cases hs : a.cstring? with
  | none => rw [hs] at h; cases h
  | some s =>
    rw [cstring?_append hs]
    rw [hs] at h
    simp only at h ⊢
    split at h
    case isTrue hfit =>
      cases h
      rw [dif_pos (by omega)]
      refine congrArg some (ext ?_)
      simp only [bytes_append, List.append_assoc, List.cons_append]
      rw [List.drop_append_of_le_length (by simpa using hfit)]
    case isFalse => cases h

end CharArray
