-- SUMMARY: Reflected cyclic redundancy checks of any width: linearity, detection of one changed byte, table-driven evaluation, and tables with missing entries.
import Mathlib.Data.List.DropRight
import Mathlib.Logic.Function.Iterate
import Mathlib.Tactic.Common

/-!
# Cyclic redundancy checks

The register of a reflected CRC, least significant bit first, over an arbitrary
width and polynomial. `register` is the bit-by-bit definition. A byte at a time
the register moves down eight places and takes in the table's word for the
index of the byte (`feed_eq_table`).

A table with missing (zero) entries still computes a CRC, but of another
message: each byte that meets a missing entry is changed so that its index
becomes 0 (`foldl_tableStep`). Whether the result is the right one then depends
only on the error pattern, because the register is linear in the message. It is
right on all prefixes where no byte meets a missing entry (`foldl_prefixes_iff`).

Such a table also forgets: all missing entries are the same word, so a register
of `m` bytes tells no more of a message than its last `m` lookups
(`foldl_tableStep_eq_iff`).
-/

namespace Crc

variable {w : Nat} (poly : BitVec w)

/-- One bit: move down a place, and take in the polynomial when a one falls out. -/
def shift (r : BitVec w) : BitVec w :=
  if r.getLsbD 0 then (r >>> 1) ^^^ poly else r >>> 1

/-- A byte as a register value. -/
def ofByte (b : UInt8) : BitVec w := b.toBitVec.setWidth w

/-- Take in one byte, bit by bit. -/
def feed (r : BitVec w) (b : UInt8) : BitVec w := (shift poly)^[8] (r ^^^ ofByte b)

/-- The register after a message, bit by bit. -/
def register (r : BitVec w) (bs : List UInt8) : BitVec w := bs.foldl (feed poly) r

@[simp] theorem register_nil (r : BitVec w) : register poly r [] = r := rfl
@[simp] theorem register_cons (r : BitVec w) (b : UInt8) (bs : List UInt8) :
    register poly r (b :: bs) = register poly (feed poly r b) bs := rfl

/-! ## Linearity -/

private theorem xor_xor_cancel (a b p : BitVec w) : a ^^^ p ^^^ (b ^^^ p) = a ^^^ b := by
  rw [BitVec.xor_assoc, BitVec.xor_comm b p, ← BitVec.xor_assoc p p b, BitVec.xor_self,
    BitVec.zero_xor]

theorem shift_xor (a b : BitVec w) : shift poly (a ^^^ b) = shift poly a ^^^ shift poly b := by
  unfold shift
  rw [BitVec.getLsbD_xor, BitVec.ushiftRight_xor_distrib]
  cases ha : a.getLsbD 0 <;> cases hb : b.getLsbD 0
  · simp
  · simp [BitVec.xor_assoc]
  · simp only [Bool.xor_false, if_true, Bool.false_eq_true, if_false]
    rw [BitVec.xor_assoc, BitVec.xor_assoc, BitVec.xor_comm poly]
  · simp only [Bool.xor_true, Bool.not_true, Bool.false_eq_true, if_false, if_true]
    exact (xor_xor_cancel _ _ poly).symm

theorem iterate_shift_xor (k : Nat) (a b : BitVec w) :
    (shift poly)^[k] (a ^^^ b) = (shift poly)^[k] a ^^^ (shift poly)^[k] b := by
  induction k generalizing a b with
  | zero => rfl
  | succ k ih => simp only [Function.iterate_succ_apply, shift_xor, ih]

theorem ofByte_xor (a b : UInt8) : (ofByte (a ^^^ b) : BitVec w) = ofByte a ^^^ ofByte b := by
  simp only [ofByte, UInt8.toBitVec_xor, BitVec.setWidth_xor]

/-- The register is additive in the pair of its old value and the byte. -/
theorem feed_xor (r s : BitVec w) (a b : UInt8) :
    feed poly (r ^^^ s) (a ^^^ b) = feed poly r a ^^^ feed poly s b := by
  rw [feed, feed, feed, ← iterate_shift_xor, ofByte_xor]
  congr 1
  rw [BitVec.xor_assoc, BitVec.xor_assoc, ← BitVec.xor_assoc s, BitVec.xor_comm s,
    BitVec.xor_assoc]

theorem register_xor (r s : BitVec w) {bs es : List UInt8} (h : bs.length = es.length) :
    register poly (r ^^^ s) (bs.zipWith (· ^^^ ·) es) =
      register poly r bs ^^^ register poly s es := by
  induction bs generalizing r s es with
  | nil =>
      obtain rfl := List.length_eq_zero_iff.mp h.symm
      rfl
  | cons b bs ih =>
      obtain ⟨e, es, rfl⟩ := List.exists_cons_of_length_eq_add_one h.symm
      simp only [List.zipWith_cons_cons, register_cons, feed_xor]
      exact ih _ _ (Nat.succ_inj.mp h)

/-- Two messages leave the same register exactly when their difference leaves a
zero register cleared. -/
theorem register_zipWith_xor_eq_iff (r : BitVec w) {bs es : List UInt8}
    (h : bs.length = es.length) :
    register poly r (bs.zipWith (· ^^^ ·) es) = register poly r bs ↔
      register poly 0 es = 0 := by
  have hx := register_xor poly r 0 h
  rw [show r ^^^ 0 = r from BitVec.xor_zero] at hx
  rw [hx]
  constructor
  · intro heq
    have := congrArg (register poly r bs ^^^ ·) heq
    simpa [← BitVec.xor_assoc] using this
  · intro h0
    rw [h0]
    exact BitVec.xor_zero

/-! ## A byte at a time -/

/-- Where a byte looks in the table. -/
def index (r : BitVec w) (b : UInt8) : UInt8 := UInt8.ofBitVec (r.setWidth 8 ^^^ b.toBitVec)

/-- The table's word for an index: eight shifts of it. -/
def entry (i : UInt8) : BitVec w := (shift poly)^[8] (ofByte i)

/-- One step with a table. -/
def tableStep (table : UInt8 → BitVec w) (r : BitVec w) (b : UInt8) : BitVec w :=
  table (index r b) ^^^ (r >>> 8)

/-- A register whose low places are clear only moves down. -/
private theorem iterate_shift_of_low_clear {k : Nat} {r : BitVec w}
    (h : ∀ i < k, r.getLsbD i = false) : (shift poly)^[k] r = r >>> k := by
  induction k generalizing r with
  | zero => simp
  | succ k ih =>
      have hshift : shift poly r = r >>> 1 := by
        simp [shift, h 0 (Nat.succ_pos k)]
      rw [Function.iterate_succ_apply, hshift, ih, ← BitVec.shiftRight_add, Nat.add_comm]
      intro i hi
      rw [BitVec.getLsbD_ushiftRight]
      exact h (1 + i) (by omega)

private theorem eq_low_xor_high (r : BitVec w) :
    r = (r.setWidth 8).setWidth w ^^^ (r >>> 8) <<< 8 := by
  apply BitVec.eq_of_getLsbD_eq
  intro i hi
  simp only [BitVec.getLsbD_xor, BitVec.getLsbD_setWidth, BitVec.getLsbD_shiftLeft,
    BitVec.getLsbD_ushiftRight, hi, decide_true, Bool.true_and]
  by_cases h8 : i < 8
  · simp [h8]
  · simp [h8, show 8 + (i - 8) = i by omega]

/-- Eight shifts of a register: the entry of its low byte, and the rest of it
moved down. -/
private theorem iterate_shift_eight (r : BitVec w) :
    (shift poly)^[8] r = entry poly (UInt8.ofBitVec (r.setWidth 8)) ^^^ (r >>> 8) := by
  have hclear : ∀ i < 8, ((r >>> 8) <<< 8).getLsbD i = false := by
    intro i hi
    simp [BitVec.getLsbD_shiftLeft, hi]
  have hhigh : ((r >>> 8) <<< 8) >>> 8 = r >>> 8 := by
    apply BitVec.eq_of_getLsbD_eq
    intro i hi
    simp only [BitVec.getLsbD_ushiftRight, BitVec.getLsbD_shiftLeft]
    by_cases h8 : 8 + i < w
    · simp [h8]
    · simp [BitVec.getLsbD_of_ge r (8 + i) (by omega)]
  conv_lhs => rw [eq_low_xor_high r]
  rw [iterate_shift_xor, iterate_shift_of_low_clear poly hclear, hhigh]
  rfl

/-- **A byte at a time**: feeding a byte is one step with the full table. -/
theorem feed_eq_table (hw : 8 ≤ w) (r : BitVec w) (b : UInt8) :
    feed poly r b = tableStep (entry poly) r b := by
  have hbyte : (ofByte b : BitVec w) >>> 8 = 0 := by
    apply BitVec.eq_of_getLsbD_eq
    intro i hi
    simp only [ofByte, BitVec.getLsbD_ushiftRight, BitVec.getLsbD_setWidth]
    rw [BitVec.getLsbD_of_ge b.toBitVec (8 + i) (by omega)]
    simp
  have hlow : (r ^^^ ofByte b).setWidth 8 = r.setWidth 8 ^^^ b.toBitVec := by
    rw [BitVec.setWidth_xor, ofByte, BitVec.setWidth_setWidth_of_le _ hw, BitVec.setWidth_eq]
  rw [feed, iterate_shift_eight, tableStep, index, hlow, BitVec.ushiftRight_xor_distrib, hbyte]
  simp

/-! ## One changed byte -/

/-- The bit that falls out comes back at the top when the polynomial has its top bit. -/
private theorem getLsbD_shift_last (hw : 0 < w) (hpoly : poly.getLsbD (w - 1) = true)
    (r : BitVec w) : (shift poly r).getLsbD (w - 1) = r.getLsbD 0 := by
  have hout : (r >>> 1).getLsbD (w - 1) = false := by
    rw [BitVec.getLsbD_ushiftRight]
    exact BitVec.getLsbD_of_ge r _ (by omega)
  unfold shift
  split
  case isTrue h => rw [BitVec.getLsbD_xor, hout, hpoly, h, Bool.false_xor]
  case isFalse h => rw [hout, Bool.eq_false_iff.mpr h]

theorem shift_injective (hw : 0 < w) (hpoly : poly.getLsbD (w - 1) = true) :
    Function.Injective (shift poly) := by
  intro r s h
  have hlow : r.getLsbD 0 = s.getLsbD 0 := by
    rw [← getLsbD_shift_last poly hw hpoly r, h, getLsbD_shift_last poly hw hpoly s]
  have hhigh : r >>> 1 = s >>> 1 := by
    unfold shift at h
    rw [hlow] at h
    split at h
    case isTrue => exact (BitVec.xor_left_inj _).mp h
    case isFalse => exact h
  apply BitVec.eq_of_getLsbD_eq
  intro i _
  cases i with
  | zero => exact hlow
  | succ i =>
      have hbit := congrArg (fun x : BitVec w => x.getLsbD i) hhigh
      simpa only [BitVec.getLsbD_ushiftRight, Nat.add_comm 1 i] using hbit

theorem ofByte_injective (hw : 8 ≤ w) : Function.Injective (ofByte : UInt8 → BitVec w) := by
  intro a b h
  have hback := congrArg (BitVec.setWidth 8) h
  simp only [ofByte, BitVec.setWidth_setWidth_of_le _ hw, BitVec.setWidth_eq] at hback
  exact UInt8.toBitVec_inj.mp hback

section Detection

variable {poly}

theorem feed_left_injective (hw : 8 ≤ w) (hpoly : poly.getLsbD (w - 1) = true) (b : UInt8) :
    Function.Injective fun r => feed poly r b := by
  intro r s h
  have hiter := (shift_injective poly (by omega) hpoly).iterate 8
  exact (BitVec.xor_left_inj _).mp (hiter h)

theorem feed_right_injective (hw : 8 ≤ w) (hpoly : poly.getLsbD (w - 1) = true) (r : BitVec w) :
    Function.Injective (feed poly r) := by
  intro a b h
  have hiter := (shift_injective poly (by omega) hpoly).iterate 8
  exact ofByte_injective hw ((BitVec.xor_right_inj _).mp (hiter h))

theorem register_left_injective (hw : 8 ≤ w) (hpoly : poly.getLsbD (w - 1) = true)
    (bs : List UInt8) : Function.Injective fun r => register poly r bs := by
  induction bs with
  | nil => exact fun _ _ h => h
  | cons b bs ih => exact fun r s h => feed_left_injective hw hpoly b (ih h)

/-- **One changed byte is detected**, wherever it is. -/
theorem register_ne_of_byte_ne (hw : 8 ≤ w) (hpoly : poly.getLsbD (w - 1) = true) (r : BitVec w)
    (pre post : List UInt8) {a b : UInt8} (hab : a ≠ b) :
    register poly r (pre ++ a :: post) ≠ register poly r (pre ++ b :: post) := by
  intro h
  unfold register at h
  rw [List.foldl_append, List.foldl_append] at h
  have hfeed := register_left_injective hw hpoly post h
  exact hab (feed_right_injective hw hpoly _ hfeed)

end Detection

/-! ## Tables with missing entries -/

/-- The index of a byte when its entry is missing, and 0 otherwise. -/
def miss (known : UInt8 → Bool) (r : BitVec w) (b : UInt8) : UInt8 :=
  if known (index r b) then 0 else index r b

/-- The error pattern of a message: what each byte is off by once its missing
entries are read as zero. -/
def misses (known : UInt8 → Bool) : BitVec w → List UInt8 → List UInt8
  | _, [] => []
  | r, b :: bs =>
      miss known r b :: misses known (feed poly r (b ^^^ miss known r b)) bs

@[simp] theorem length_misses (known : UInt8 → Bool) (r : BitVec w) (bs : List UInt8) :
    (misses poly known r bs).length = bs.length := by
  induction bs generalizing r with
  | nil => rfl
  | cons b bs ih => simp [misses, ih]

section Partial

variable {poly} {known : UInt8 → Bool} {table : UInt8 → BitVec w}

/-- Changing a byte by its own index makes the index 0. -/
private theorem index_xor_index (r : BitVec w) (b : UInt8) : index r (b ^^^ index r b) = 0 := by
  simp only [index]
  apply UInt8.toBitVec_inj.mp
  simp only [UInt8.toBitVec_xor]
  rw [← BitVec.xor_assoc, BitVec.xor_self]
  rfl

theorem entry_zero : entry poly 0 = 0 := by
  have h : (ofByte 0 : BitVec w) = 0 := by simp [ofByte]
  rw [entry, h, iterate_shift_of_low_clear poly (by simp)]
  simp

/-- One step with a partial table feeds the byte changed by its miss. -/
theorem tableStep_eq_feed (hw : 8 ≤ w)
    (htable : ∀ i, table i = if known i then entry poly i else 0) (r : BitVec w) (b : UInt8) :
    tableStep table r b = feed poly r (b ^^^ miss known r b) := by
  rw [feed_eq_table poly hw, tableStep, tableStep, htable, miss]
  split
  case isTrue h => simp
  case isFalse h => rw [index_xor_index, entry_zero]

/-- **A partial table computes the CRC of the message plus its error pattern.** -/
theorem foldl_tableStep (hw : 8 ≤ w)
    (htable : ∀ i, table i = if known i then entry poly i else 0) (r : BitVec w)
    (bs : List UInt8) :
    bs.foldl (tableStep table) r =
      register poly r (bs.zipWith (· ^^^ ·) (misses poly known r bs)) := by
  induction bs generalizing r with
  | nil => rfl
  | cons b bs ih =>
      simp only [List.foldl_cons, misses, List.zipWith_cons_cons, register_cons]
      rw [tableStep_eq_feed hw htable, ih]

/-- A partial table gives the right CRC exactly when the error pattern is
invisible to the CRC. -/
theorem foldl_tableStep_eq_register_iff (hw : 8 ≤ w)
    (htable : ∀ i, table i = if known i then entry poly i else 0) (r : BitVec w)
    (bs : List UInt8) :
    bs.foldl (tableStep table) r = register poly r bs ↔
      register poly 0 (misses poly known r bs) = 0 := by
  rw [foldl_tableStep hw htable, register_zipWith_xor_eq_iff poly r (by simp)]

/-! ## Messages that meet no missing entry -/

theorem entry_injective (hw : 8 ≤ w) (hpoly : poly.getLsbD (w - 1) = true) :
    Function.Injective (entry poly) := by
  have hfeed : ∀ i, entry poly i = feed poly 0 i := by
    intro i
    rw [entry, feed]
    exact congrArg _ BitVec.zero_xor.symm
  intro i j h
  rw [hfeed, hfeed] at h
  exact feed_right_injective hw hpoly 0 h

/-- One step with a partial table is right exactly where its entry is there. -/
theorem tableStep_eq_feed_iff (hw : 8 ≤ w) (hpoly : poly.getLsbD (w - 1) = true)
    (htable : ∀ i, table i = if known i then entry poly i else 0) (hzero : known 0)
    (r : BitVec w) (b : UInt8) :
    tableStep table r b = feed poly r b ↔ known (index r b) := by
  rw [feed_eq_table poly hw, tableStep, tableStep, BitVec.xor_left_inj, htable]
  split
  case isTrue h => simp [h]
  case isFalse h =>
    refine ⟨fun heq => ?_, fun hknown => absurd hknown h⟩
    exact entry_injective hw hpoly (entry_zero.trans heq) ▸ hzero

/-- **Where a partial table is right.** All prefixes of a message get their CRC exactly where no
byte of the message meets a missing entry, in the register of the bytes before it. -/
theorem foldl_prefixes_iff (hw : 8 ≤ w) (hpoly : poly.getLsbD (w - 1) = true)
    (htable : ∀ i, table i = if known i then entry poly i else 0) (hzero : known 0)
    (r : BitVec w) (bs : List UInt8) :
    (∀ pre, pre <+: bs → pre.foldl (tableStep table) r = register poly r pre) ↔
      ∀ pre b post, bs = pre ++ b :: post → known (index (register poly r pre) b) := by
  have hstep : ∀ pre b, register poly r (pre ++ [b]) = feed poly (register poly r pre) b := by
    intro pre b
    rw [register, List.foldl_append]
    rfl
  constructor
  · intro h pre b post hbs
    have hlast := h (pre ++ [b]) ⟨post, by rw [hbs, List.append_assoc]; rfl⟩
    rw [hstep, List.foldl_append, h pre ⟨b :: post, hbs.symm⟩] at hlast
    exact (tableStep_eq_feed_iff hw hpoly htable hzero _ b).mp hlast
  · intro h pre hpre
    induction pre using List.reverseRecOn with
    | nil => rfl
    | append_singleton pre b ih =>
      obtain ⟨post, rfl⟩ := hpre
      have hknown := h pre b post (by rw [List.append_assoc]; rfl)
      have hbefore := ih ⟨[b] ++ post, (List.append_assoc ..).symm⟩
      rw [hstep, List.foldl_append, hbefore]
      exact (tableStep_eq_feed_iff hw hpoly htable hzero _ b).mpr hknown

/-! ## What a register remembers -/

/-- The entry that a byte selects, where a missing entry counts as the entry of 0. -/
def lookup (known : UInt8 → Bool) (r : BitVec w) (b : UInt8) : UInt8 :=
  if known (index r b) then index r b else 0

/-- The entries that a message selects. -/
def lookups (poly : BitVec w) (known : UInt8 → Bool) : BitVec w → List UInt8 → List UInt8
  | _, [] => []
  | r, b :: bs => lookup known r b :: lookups poly known (feed poly r (b ^^^ miss known r b)) bs

theorem tableStep_eq_lookup (htable : ∀ i, table i = if known i then entry poly i else 0)
    (r : BitVec w) (b : UInt8) :
    tableStep table r b = entry poly (lookup known r b) ^^^ (r >>> 8) := by
  rw [tableStep, htable, lookup]
  split
  case isTrue => rfl
  case isFalse => rw [entry_zero]

theorem lookups_concat (hw : 8 ≤ w) (htable : ∀ i, table i = if known i then entry poly i else 0)
    (r : BitVec w) (bs : List UInt8) (b : UInt8) :
    lookups poly known r (bs ++ [b]) =
      lookups poly known r bs ++ [lookup known (bs.foldl (tableStep table) r) b] := by
  induction bs generalizing r with
  | nil => rfl
  | cons c bs ih =>
      simp only [List.cons_append, lookups, List.foldl_cons]
      rw [ih, tableStep_eq_feed hw htable]

/-- The entries of the known indices and of 0 differ in their top bytes. -/
def TopBytesDiffer (poly : BitVec w) (known : UInt8 → Bool) : Prop :=
  ∀ i j, (known i ∨ i = 0) → (known j ∨ j = 0) →
    entry poly i >>> (w - 8) = entry poly j >>> (w - 8) → i = j

private theorem lookup_known (r : BitVec w) (b : UInt8) :
    known (lookup known r b) ∨ lookup known r b = 0 := by
  unfold lookup
  split
  case isTrue h => exact .inl h
  case isFalse => exact .inr rfl

/-- The top byte of a register is that of the last word taken in. -/
private theorem topByte_xor_shiftRight (hw : 8 ≤ w) (a r : BitVec w) :
    (a ^^^ (r >>> 8)) >>> (w - 8) = a >>> (w - 8) := by
  have hout : r >>> w = 0 := BitVec.ushiftRight_eq_zero (Nat.le_refl w)
  rw [BitVec.ushiftRight_xor_distrib, ← BitVec.shiftRight_add, Nat.add_sub_cancel' hw, hout]
  exact BitVec.xor_zero

/-- One step back: the registers agree in a byte more than their predecessors
exactly when the last lookups agree too. -/
private theorem xor_shiftRight_eq_iff (hw : 8 ≤ w) (htop : TopBytesDiffer poly known)
    {i j : UInt8} (hi : known i ∨ i = 0) (hj : known j ∨ j = 0) (r s : BitVec w) {m : Nat}
    (hm : 8 * (m + 1) ≤ w) :
    (entry poly i ^^^ (r >>> 8)) >>> (w - 8 * (m + 1)) =
        (entry poly j ^^^ (s >>> 8)) >>> (w - 8 * (m + 1)) ↔
      r >>> (w - 8 * m) = s >>> (w - 8 * m) ∧ i = j := by
  have hback : 8 + (w - 8 * (m + 1)) = w - 8 * m := by omega
  have htopmost : w - 8 * (m + 1) + 8 * m = w - 8 := by omega
  constructor
  · intro h
    have hbyte := congrArg (fun x : BitVec w => x >>> (8 * m)) h
    simp only [← BitVec.shiftRight_add, htopmost, topByte_xor_shiftRight hw] at hbyte
    obtain rfl := htop i j hi hj hbyte
    refine ⟨?_, rfl⟩
    rw [BitVec.ushiftRight_xor_distrib, BitVec.ushiftRight_xor_distrib, ← BitVec.shiftRight_add,
      ← BitVec.shiftRight_add, hback] at h
    exact (BitVec.xor_right_inj _).mp h
  · intro ⟨h, hij⟩
    rw [BitVec.ushiftRight_xor_distrib, BitVec.ushiftRight_xor_distrib, ← BitVec.shiftRight_add,
      ← BitVec.shiftRight_add, hback, h, hij]

/-- The top `m` bytes of the registers agree exactly when the last `m` lookups do. -/
private theorem shiftRight_foldl_eq_iff (hw : 8 ≤ w)
    (htable : ∀ i, table i = if known i then entry poly i else 0)
    (htop : TopBytesDiffer poly known) (r : BitVec w) {xs ys : List UInt8}
    (hlen : xs.length = ys.length) {m : Nat} (hm : 8 * m ≤ w) :
    xs.foldl (tableStep table) r >>> (w - 8 * m) = ys.foldl (tableStep table) r >>> (w - 8 * m) ↔
      (lookups poly known r xs).rtake m = (lookups poly known r ys).rtake m := by
  induction xs using List.reverseRecOn generalizing ys m with
  | nil =>
      obtain rfl := List.length_eq_zero_iff.mp hlen.symm
      simp
  | append_singleton xs x ih =>
      obtain rfl | ⟨ys, y, rfl⟩ := List.eq_nil_or_concat' ys
      case inl => simp at hlen
      have hlen' : xs.length = ys.length := by simpa using hlen
      cases m with
      | zero => simp [BitVec.ushiftRight_eq_zero]
      | succ m =>
          rw [lookups_concat hw htable, lookups_concat hw htable, List.rtake_concat_succ,
            List.rtake_concat_succ, List.append_singleton_inj, List.foldl_append, List.foldl_append,
            ← ih hlen' (by omega)]
          simp only [List.foldl_cons, List.foldl_nil, tableStep_eq_lookup htable]
          exact xor_shiftRight_eq_iff hw htop (lookup_known _ _) (lookup_known _ _) _ _ hm

/-- **What a register remembers**: over messages of one length, a register of
`m` bytes tells apart exactly those that differ in their last `m` lookups. -/
theorem foldl_tableStep_eq_iff {m : Nat} (hm : w = 8 * m) (hw : 8 ≤ w)
    (htable : ∀ i, table i = if known i then entry poly i else 0)
    (htop : TopBytesDiffer poly known) (r : BitVec w) {xs ys : List UInt8}
    (hlen : xs.length = ys.length) :
    xs.foldl (tableStep table) r = ys.foldl (tableStep table) r ↔
      (lookups poly known r xs).rtake m = (lookups poly known r ys).rtake m := by
  rw [← shiftRight_foldl_eq_iff hw htable htop r hlen (Nat.le_of_eq hm.symm), ← hm]
  simp

/-- Where the last `m` lookups are those of 0, the top `m` bytes of the register are 0. -/
theorem shiftRight_foldl_eq_zero (hw : 8 ≤ w)
    (htable : ∀ i, table i = if known i then entry poly i else 0) (r : BitVec w) {bs : List UInt8}
    {m : Nat} (hlen : m ≤ bs.length) (hm : 8 * m ≤ w)
    (hzero : ∀ i ∈ (lookups poly known r bs).rtake m, i = 0) :
    bs.foldl (tableStep table) r >>> (w - 8 * m) = 0 := by
  induction bs using List.reverseRecOn generalizing m with
  | nil =>
      obtain rfl := Nat.le_zero.mp hlen
      exact BitVec.ushiftRight_eq_zero (Nat.le_refl w)
  | append_singleton bs b ih =>
      cases m with
      | zero => exact BitVec.ushiftRight_eq_zero (Nat.le_refl w)
      | succ m =>
          rw [lookups_concat hw htable, List.rtake_concat_succ] at hzero
          have hlast : lookup known (bs.foldl (tableStep table) r) b = 0 := hzero _ (by simp)
          have hback : 8 + (w - 8 * (m + 1)) = w - 8 * m := by omega
          have hxor : ∀ x : BitVec w, 0 ^^^ x = x := fun _ => BitVec.zero_xor
          rw [List.foldl_append, List.foldl_cons, List.foldl_nil, tableStep_eq_lookup htable, hlast,
            entry_zero, hxor, ← BitVec.shiftRight_add, hback]
          exact ih (by simpa using hlen) (by omega) fun i hi =>
            hzero i (List.mem_append_left _ hi)

end Partial

end Crc
