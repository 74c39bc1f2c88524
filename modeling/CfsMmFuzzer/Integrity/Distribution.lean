-- SUMMARY: How the values of the CRC are distributed over the messages of one length.
import Mathlib.Algebra.Order.BigOperators.GroupWithZero.List
import Mathlib.Data.FinEnum
import Mathlib.Data.Set.List
import CfsMmFuzzer.Base.Words
import CfsMmFuzzer.Integrity.Detection

/-!
# Distribution of the CRC

Only the last four lookups of a message reach its CRC, and 241 of the 256 bytes
select the entry of 0 in every state of the register. So the messages of one
length share few values, unevenly: the more of the last lookups are 0, the more
messages have the value.
-/

namespace MM

open Crc Words

/-- The number of bytes that select an entry. -/
def crcWeight (i : UInt8) : Nat := if i = 0 then 241 else if crcKnown i then 1 else 0

/-! ## Lookups as labels -/

theorem index_injective (r : BitVec 32) : Function.Injective (index r) := by
  intro a b h
  have hbits : r.setWidth 8 ^^^ a.toBitVec = r.setWidth 8 ^^^ b.toBitVec :=
    congrArg UInt8.toBitVec h
  exact UInt8.toBitVec_inj.mp ((BitVec.xor_right_inj _).mp hbits)

/-- The entry that an index selects. -/
def selected (j : UInt8) : UInt8 := if crcKnown j then j else 0

theorem crcKnown_iff (j : UInt8) : crcKnown j ↔ j.toNat < 16 := decide_eq_true_iff

theorem selected_eq_zero_iff (j : UInt8) : selected j = 0 ↔ j.toNat = 0 ∨ 16 ≤ j.toNat := by
  unfold selected
  split
  case isTrue h =>
    have hlt := (crcKnown_iff j).mp h
    rw [← UInt8.toNat_inj]
    change j.toNat = 0 ↔ _
    omega
  case isFalse h =>
    have hge := mt (crcKnown_iff j).mpr h
    exact iff_of_true rfl (.inr (Nat.le_of_not_lt hge))

theorem ncard_selected_zero : {j | selected j = 0}.ncard = 241 := by
  have himage : Set.image UInt8.toNat {j | selected j = 0} =
      ((insert 0 (Finset.Ico 16 256) : Finset Nat) : Set Nat) := by
    ext n
    rw [Finset.mem_coe, Finset.mem_insert, Finset.mem_Ico]
    constructor
    · rintro ⟨j, hj, rfl⟩
      have hlt := j.toNat_lt
      have hsel := (selected_eq_zero_iff j).mp hj
      omega
    · intro hn
      have hj : (UInt8.ofNat n).toNat = n := UInt8.toNat_ofNat_of_lt' (by
        change n < 256
        omega)
      exact ⟨UInt8.ofNat n, (selected_eq_zero_iff _).mpr (by omega), hj⟩
  rw [← Set.ncard_image_of_injective _ fun _ _ h => UInt8.toNat_inj.mp h, himage,
    Set.ncard_coe_finset]
  rfl

theorem known_of_selected_ne_zero {j : UInt8} (h : selected j ≠ 0) : crcKnown j := by
  by_contra hknown
  exact h (if_neg hknown)

theorem selected_of_ne_zero {j : UInt8} (h : selected j ≠ 0) : selected j = j :=
  if_pos (known_of_selected_ne_zero h)

/-- Entry 0 stands for all the missing ones. -/
theorem ncard_selected (i : UInt8) : {j | selected j = i}.ncard = crcWeight i := by
  unfold crcWeight
  split_ifs with hzero hknown
  · rw [hzero, ncard_selected_zero]
  · have hi : {j | selected j = i} = {i} := by
      ext j
      constructor
      · rintro rfl
        exact (selected_of_ne_zero hzero).symm
      · rintro rfl
        exact if_pos hknown
    rw [hi, Set.ncard_singleton]
  · have hi : {j | selected j = i} = ∅ := by
      ext j
      refine ⟨?_, False.elim⟩
      rintro rfl
      have hj := selected_of_ne_zero hzero
      rw [hj] at hzero hknown
      exact hknown (known_of_selected_ne_zero (by rwa [hj]))
    rw [hi, Set.ncard_empty]

/-- In every state of the register, as many bytes select an entry. -/
theorem ncard_lookup_eq (r : BitVec 32) (i : UInt8) :
    {b | lookup crcKnown r b = i}.ncard = crcWeight i := by
  have hpre : {b | lookup crcKnown r b = i} = Set.preimage (index r) {j | selected j = i} := rfl
  have hsurj : Function.Surjective (index r) := Finite.surjective_of_injective (index_injective r)
  rw [hpre, Set.ncard_preimage_of_injective_subset_range (index_injective r)
    (by rw [hsurj.range_eq]; exact Set.subset_univ _), ncard_selected]

theorem crcLookups_eq_labels (initial : UInt32) (bytes : List UInt8) :
    crcLookups initial bytes =
      labels (fun r b => feed crcPoly r (b ^^^ miss crcKnown r b)) (lookup crcKnown)
        initial.toBitVec bytes := by
  unfold crcLookups
  generalize initial.toBitVec = r
  induction bytes generalizing r with
  | nil => rfl
  | cons b bs ih => rw [lookups, labels, ih]

/-- The messages with given last lookups. -/
theorem ncard_rtake_crcLookups (initial : UInt32) (entries : List UInt8) (n : Nat) :
    (words (n + entries.length) fun bytes =>
      (crcLookups initial bytes).rtake entries.length = entries).ncard =
        256 ^ n * (entries.map crcWeight).prod := by
  have hcard : Fintype.card UInt8 = 256 := FinEnum.card_eq_fintypeCard.symm
  simp only [crcLookups_eq_labels]
  rw [ncard_rtake_labels_eq ncard_lookup_eq, hcard]

/-! ## Values -/

section Values

variable (initial : UInt32)

theorem length_crcLookups (bytes : List UInt8) :
    (crcLookups initial bytes).length = bytes.length := by
  rw [crcLookups_eq_labels, length_labels]

theorem rtake_min {l : List UInt8} {n k : Nat} (h : l.length = n) :
    l.rtake (min n k) = l.rtake k := by
  rw [List.rtake, List.rtake, h]
  congr 1
  omega

/-- The last lookups of a message, as many as reach its CRC. -/
def lastLookups (bytes : List UInt8) : List UInt8 := (crcLookups initial bytes).rtake 4

theorem length_lastLookups (bytes : List UInt8) :
    (lastLookups initial bytes).length = min bytes.length 4 := by
  rw [lastLookups, List.rtake, List.length_drop, length_crcLookups]
  omega

theorem calculateCRC32_eq_iff_lastLookups {xs ys : List UInt8} (hlen : xs.length = ys.length) :
    calculateCRC32 (some xs) initial = calculateCRC32 (some ys) initial ↔
      lastLookups initial xs = lastLookups initial ys :=
  calculateCRC32_eq_iff_lookups initial hlen

/-- The messages with given last lookups, in one length. -/
theorem ncard_lastLookups_eq (n : Nat) {entries : List UInt8} (hlen : entries.length = min n 4) :
    (words n fun bytes => lastLookups initial bytes = entries).ncard =
      256 ^ (n - 4) * (entries.map crcWeight).prod := by
  have hn : n - 4 + entries.length = n := by omega
  rw [← ncard_rtake_crcLookups initial entries (n - 4), hn]
  refine congrArg _ (words_congr fun bytes hbytes => ?_)
  rw [hlen, rtake_min (by rw [length_crcLookups, hbytes])]
  rfl

/-- **How often a value occurs.** The messages of one length with the CRC of a message: all bytes but
the last four are free, and each of those has as many choices as its lookup. -/
theorem ncard_calculateCRC32_eq (bytes : List UInt8) :
    {xs | xs.length = bytes.length ∧
      calculateCRC32 (some xs) initial = calculateCRC32 (some bytes) initial}.ncard =
        256 ^ (bytes.length - 4) * ((lastLookups initial bytes).map crcWeight).prod := by
  rw [← ncard_lastLookups_eq initial bytes.length (length_lastLookups initial bytes)]
  exact congrArg _ (words_congr fun xs hxs => calculateCRC32_eq_iff_lastLookups initial hxs)

/-- Every word of entries is that of some last lookups. -/
theorem exists_lastLookups_eq (n : Nat) {entries : List UInt8} (hlen : entries.length = min n 4)
    (hentries : ∀ i ∈ entries, crcKnown i) :
    ∃ bytes : List UInt8, bytes.length = n ∧ lastLookups initial bytes = entries := by
  have hpos : 0 < (entries.map crcWeight).prod := by
    refine List.prod_pos fun k hk => ?_
    obtain ⟨i, hi, rfl⟩ := List.mem_map.mp hk
    unfold crcWeight
    rw [if_pos (hentries i hi)]
    split <;> decide
  have hcard : (words n fun bytes => lastLookups initial bytes = entries).ncard ≠ 0 := by
    rw [ncard_lastLookups_eq initial n hlen]
    exact (Nat.mul_pos (Nat.pow_pos (by decide)) hpos).ne'
  obtain ⟨bytes, hbytes, heq⟩ := Set.nonempty_of_ncard_ne_zero hcard
  exact ⟨bytes, hbytes, heq⟩

/-- An entry, as one of the sixteen. -/
def entryByte (i : Fin 16) : UInt8 := UInt8.ofNat i

theorem entryByte_injective : Function.Injective entryByte := by decide

theorem crcKnown_entryByte (i : Fin 16) : crcKnown (entryByte i) := by
  revert i
  decide

theorem exists_entryByte_eq {i : UInt8} (h : crcKnown i) : ∃ k, entryByte k = i :=
  ⟨⟨i.toNat, lt_of_known_or_zero (.inl h)⟩, UInt8.ofNat_toNat⟩

theorem crcKnown_of_mem_lastLookups {bytes : List UInt8} {i : UInt8}
    (h : i ∈ lastLookups initial bytes) : crcKnown i := by
  have hmem : i ∈ crcLookups initial bytes := List.mem_of_mem_drop h
  rw [crcLookups_eq_labels] at hmem
  obtain ⟨r, b, rfl⟩ := exists_of_mem_labels hmem
  unfold lookup
  split
  case isTrue hknown => exact hknown
  case isFalse => decide

/-- **How many values there are.** A message of four bytes or more has one of 65536 values, and a
shorter one has one of 16 for each byte. -/
theorem ncard_crcValues (n : Nat) :
    {v | ∃ bytes : List UInt8, bytes.length = n ∧ calculateCRC32 (some bytes) initial = v}.ncard =
      16 ^ min n 4 := by
  let messages : Set (List UInt8) := words n fun _ => True
  have hvalues : {v | ∃ bytes : List UInt8, bytes.length = n ∧
      calculateCRC32 (some bytes) initial = v} =
        Set.image (fun bytes => calculateCRC32 (some bytes) initial) messages := by
    ext v
    constructor
    · rintro ⟨bytes, hn, hv⟩
      exact ⟨bytes, ⟨hn, trivial⟩, hv⟩
    · rintro ⟨bytes, hn, hv⟩
      exact ⟨bytes, hn.1, hv⟩
  have hlookups : Set.image (lastLookups initial) messages =
      Set.image (List.map entryByte) (words (min n 4) fun _ => True) := by
    ext entries
    constructor
    · rintro ⟨bytes, ⟨hn, -⟩, rfl⟩
      have hrange : lastLookups initial bytes ∈ Set.range (List.map entryByte) := by
        rw [Set.range_list_map]
        exact fun i hi => exists_entryByte_eq (crcKnown_of_mem_lastLookups initial hi)
      obtain ⟨ks, hks⟩ := hrange
      refine ⟨ks, ⟨?_, trivial⟩, hks⟩
      rw [← hn, ← length_lastLookups initial bytes, ← hks, List.length_map]
    · rintro ⟨ks, ⟨hks, -⟩, rfl⟩
      have hlen : (ks.map entryByte).length = min n 4 := by rw [List.length_map, hks]
      have hknown : ∀ i ∈ ks.map entryByte, crcKnown i := by
        intro i hi
        obtain ⟨k, -, rfl⟩ := List.mem_map.mp hi
        exact crcKnown_entryByte k
      obtain ⟨bytes, hn, hbytes⟩ := exists_lastLookups_eq initial n hlen hknown
      exact ⟨bytes, ⟨hn, trivial⟩, hbytes⟩
  rw [hvalues, ncard_image_eq_of_iff (g := lastLookups initial) fun xs hxs ys hys =>
      calculateCRC32_eq_iff_lastLookups initial (hxs.1.trans hys.1.symm), hlookups,
    Set.ncard_image_of_injective _ entryByte_injective.list_map, ncard_words_true, Fintype.card_fin]

/-- Lookups of 0 push the whole register out. -/
theorem calculateCRC32_eq_zero {bytes : List UInt8} (hn : 4 ≤ bytes.length)
    (hlast : lastLookups initial bytes = [0, 0, 0, 0]) :
    calculateCRC32 (some bytes) initial = 0 := by
  have hout := shiftRight_foldl_eq_zero (m := 4) (by decide) crcTable_toBitVec initial.toBitVec hn
    (Nat.le_refl 32) fun i hi => by
      have hmem : i ∈ lastLookups initial bytes := hi
      rw [hlast] at hmem
      simpa using hmem
  rw [← UInt32.toBitVec_inj, calculateCRC32_toBitVec]
  exact hout

/-- **The value zero.** More than three quarters of the messages of any length from four on have a CRC
of zero, whatever the initial value. -/
theorem ncard_calculateCRC32_eq_zero {n : Nat} (hn : 4 ≤ n) :
    let zeros := {bytes : List UInt8 | bytes.length = n ∧ calculateCRC32 (some bytes) initial = 0}
    zeros.ncard = 256 ^ (n - 4) * 241 ^ 4 ∧ 3 * 256 ^ n < 4 * zeros.ncard := by
  have hknown : ∀ i ∈ [(0 : UInt8), 0, 0, 0], crcKnown i := by
    intro i hi
    rw [List.eq_of_mem_replicate (n := 4) hi]
    decide
  have hlen : [(0 : UInt8), 0, 0, 0].length = min n 4 := (Nat.min_eq_right hn).symm
  obtain ⟨bytes, rfl, hlast⟩ := exists_lastLookups_eq initial n hlen hknown
  have hzero := calculateCRC32_eq_zero initial hn hlast
  have hcount : {xs : List UInt8 | xs.length = bytes.length ∧
      calculateCRC32 (some xs) initial = 0}.ncard = 256 ^ (bytes.length - 4) * 241 ^ 4 := by
    have hzeros := ncard_lastLookups_eq initial bytes.length (length_lastLookups initial bytes)
    rw [hlast] at hzeros
    rw [← hzero]
    refine Eq.trans (congrArg _ (words_congr fun xs hxs => ?_)) hzeros
    rw [calculateCRC32_eq_iff_lastLookups initial hxs, hlast]
  have hpow : 256 ^ bytes.length = 256 ^ (bytes.length - 4) * 256 ^ 4 := by
    rw [← Nat.pow_add, Nat.sub_add_cancel hn]
  refine ⟨hcount, ?_⟩
  calc 3 * 256 ^ bytes.length
    _ = 256 ^ (bytes.length - 4) * (3 * 256 ^ 4) := by rw [hpow, Nat.mul_left_comm]
    _ < 256 ^ (bytes.length - 4) * (4 * 241 ^ 4) :=
        Nat.mul_lt_mul_of_pos_left (by decide) (Nat.pow_pos (by decide))
    _ = 4 * (256 ^ (bytes.length - 4) * 241 ^ 4) := Nat.mul_left_comm _ _ _
    _ = _ := by rw [hcount]

end Values

/-- Of the words of four bytes, those that meet no entry but that of 0. -/
theorem ncard_calculateCRC32_eq_zero_four :
    let zeros := {bytes : List UInt8 | bytes.length = 4 ∧
      calculateCRC32 (some bytes) 0xFFFFFFFF = 0}
    zeros.ncard = 256 ^ (4 - 4) * 241 ^ 4 ∧ 3 * 256 ^ 4 < 4 * zeros.ncard :=
  ncard_calculateCRC32_eq_zero 0xFFFFFFFF (Nat.le_refl 4)

end MM
