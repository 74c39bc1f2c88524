-- SUMMARY: Machine words in memory: the number a byte sequence denotes in either byte order, and reads at an offset.
import Mathlib.Data.Nat.Digits.Lemmas
import Mathlib.Tactic.Common

/-!
# Words and bytes

A word in memory is a byte sequence, and the byte order of the host says which
end of it is least significant. The two directions `ByteOrder.value` and
`ByteOrder.bytes` are inverse on words of a fixed width.
-/

inductive ByteOrder where
  | little
  | big
  deriving DecidableEq, Repr

namespace ByteOrder

/-- Put bytes in memory order into least-significant-first order, or back. -/
def arrange : ByteOrder → List UInt8 → List UInt8
  | .little, bs => bs
  | .big, bs => bs.reverse

@[simp] theorem arrange_arrange (e : ByteOrder) (bs : List UInt8) :
    e.arrange (e.arrange bs) = bs := by
  cases e <;> simp [arrange]

@[simp] theorem length_arrange (e : ByteOrder) (bs : List UInt8) :
    (e.arrange bs).length = bs.length := by
  cases e <;> simp [arrange]

/-- The number that a byte sequence denotes. -/
def value (e : ByteOrder) (bs : List UInt8) : Nat :=
  Nat.ofDigits 256 ((e.arrange bs).map UInt8.toNat)

/-- The `w` low base-256 digits of a number, least significant first. -/
def digits : Nat → Nat → List UInt8
  | 0, _ => []
  | w + 1, n => UInt8.ofNat n :: digits w (n / 256)

/-- The memory image of `n` as a word of `w` bytes. -/
def bytes (e : ByteOrder) (w n : Nat) : List UInt8 := e.arrange (digits w n)

@[simp] theorem length_digits (w n : Nat) : (digits w n).length = w := by
  induction w generalizing n with
  | zero => rfl
  | succ w ih => simp [digits, ih]

@[simp] theorem length_bytes (e : ByteOrder) (w n : Nat) : (e.bytes w n).length = w := by
  simp [bytes]

theorem ofDigits_digits (w n : Nat) :
    Nat.ofDigits 256 ((digits w n).map UInt8.toNat) = n % 256 ^ w := by
  induction w generalizing n with
  | zero => simp [digits, Nat.mod_one]
  | succ w ih =>
      rw [digits, List.map_cons, Nat.ofDigits_cons, ih, UInt8.toNat_ofNat', pow_succ' 256,
        Nat.mod_mul]

theorem value_bytes (e : ByteOrder) (w n : Nat) : e.value (e.bytes w n) = n % 256 ^ w := by
  simp only [value, bytes, arrange_arrange, ofDigits_digits]

private theorem lt_of_mem_map_toNat (bs : List UInt8) :
    ∀ d ∈ bs.map UInt8.toNat, d < 256 := by
  intro d hd
  obtain ⟨b, -, rfl⟩ := List.mem_map.mp hd
  exact b.toNat_lt

theorem value_lt (e : ByteOrder) (bs : List UInt8) : e.value bs < 256 ^ bs.length := by
  have h := Nat.ofDigits_lt_base_pow_length (by decide : 1 < 256)
    (lt_of_mem_map_toNat (e.arrange bs))
  simpa [value] using h

/-- Words of one width are determined by their value. -/
theorem value_inj {e : ByteOrder} {bs cs : List UInt8} (hlen : bs.length = cs.length) :
    e.value bs = e.value cs ↔ bs = cs := by
  refine ⟨fun h => ?_, fun h => h ▸ rfl⟩
  have hmap := Nat.ofDigits_inj_of_len_eq (by decide : 1 < 256) (by simpa using hlen)
    (lt_of_mem_map_toNat _) (lt_of_mem_map_toNat _) h
  have harr : e.arrange bs = e.arrange cs :=
    List.map_injective_iff.mpr (fun _ _ => UInt8.toNat_inj.mp) hmap
  simpa using congrArg e.arrange harr

theorem bytes_value (e : ByteOrder) (bs : List UInt8) : e.bytes bs.length (e.value bs) = bs := by
  rw [← value_inj (e := e) (by simp), value_bytes, Nat.mod_eq_of_lt (e.value_lt bs)]

theorem bytes_mod_value {e : ByteOrder} {w : Nat} {bs : List UInt8} (h : bs.length = w) {m : Nat}
    (hm : 256 ^ w ≤ m) : e.bytes w (e.value bs % m) = bs := by
  have hlt := e.value_lt bs
  rw [h] at hlt
  rw [Nat.mod_eq_of_lt (hlt.trans_le hm), ← h, bytes_value]

theorem bytes_uint16_value {e : ByteOrder} {bs : List UInt8} (h : bs.length = 2) :
    e.bytes 2 (UInt16.ofNat (e.value bs)).toNat = bs := by
  rw [UInt16.toNat_ofNat', bytes_mod_value h (by decide)]

theorem bytes_uint32_value {e : ByteOrder} {bs : List UInt8} (h : bs.length = 4) :
    e.bytes 4 (UInt32.ofNat (e.value bs)).toNat = bs := by
  rw [UInt32.toNat_ofNat', bytes_mod_value h (by decide)]

theorem bytes_uint64_value {e : ByteOrder} {bs : List UInt8} (h : bs.length = 8) :
    e.bytes 8 (UInt64.ofNat (e.value bs)).toNat = bs := by
  rw [UInt64.toNat_ofNat', bytes_mod_value h (by decide)]

theorem bytes_inj {e : ByteOrder} {w m n : Nat} (hm : m < 256 ^ w) (hn : n < 256 ^ w) :
    e.bytes w m = e.bytes w n ↔ m = n := by
  rw [← value_inj (e := e) (by simp), value_bytes, value_bytes, Nat.mod_eq_of_lt hm,
    Nat.mod_eq_of_lt hn]

@[simp] theorem bytes_uint16_inj {e : ByteOrder} {m n : UInt16} :
    e.bytes 2 m.toNat = e.bytes 2 n.toNat ↔ m = n :=
  (bytes_inj m.toNat_lt n.toNat_lt).trans UInt16.toNat_inj

@[simp] theorem bytes_uint32_inj {e : ByteOrder} {m n : UInt32} :
    e.bytes 4 m.toNat = e.bytes 4 n.toNat ↔ m = n :=
  (bytes_inj m.toNat_lt n.toNat_lt).trans UInt32.toNat_inj

@[simp] theorem bytes_uint64_inj {e : ByteOrder} {m n : UInt64} :
    e.bytes 8 m.toNat = e.bytes 8 n.toNat ↔ m = n :=
  (bytes_inj m.toNat_lt n.toNat_lt).trans UInt64.toNat_inj

/-! ## Reads at an offset -/

/-- The `w` bytes of `data` from offset `i` on. -/
def slice (data : List UInt8) (i w : Nat) : List UInt8 := (data.drop i).take w

/-- Copy `w` bytes out of a buffer. Reading past its end has no result. -/
def read (data : List UInt8) (i w : Nat) : Option (List UInt8) :=
  if i + w ≤ data.length then some (slice data i w) else none

theorem read_of_le {data : List UInt8} {i w : Nat} (h : i + w ≤ data.length) :
    read data i w = some (slice data i w) := if_pos h

/-- A slice that starts behind `pre` and ends before `post` is what stands between them. -/
theorem slice_append (pre mid post : List UInt8) :
    slice (pre ++ mid ++ post) pre.length mid.length = mid := by
  simp [slice]

/-- The 32-bit word at offset `i`. -/
def word32 (e : ByteOrder) (data : List UInt8) (i : Nat) : UInt32 :=
  UInt32.ofNat (e.value (slice data i 4))

/-- The 64-bit word at offset `i`. -/
def word64 (e : ByteOrder) (data : List UInt8) (i : Nat) : UInt64 :=
  UInt64.ofNat (e.value (slice data i 8))

/-- Store the 32-bit word of `n` behind `pre`, and reading it back gives `n`. -/
theorem word32_append (e : ByteOrder) (pre post : List UInt8) (n : UInt32) :
    word32 e (pre ++ e.bytes 4 n.toNat ++ post) pre.length = n := by
  have hslice := slice_append pre (e.bytes 4 n.toNat) post
  rw [length_bytes] at hslice
  have hlt : n.toNat < 256 ^ 4 := n.toNat_lt
  rw [word32, hslice, value_bytes, Nat.mod_eq_of_lt hlt, UInt32.ofNat_toNat]

theorem word64_append (e : ByteOrder) (pre post : List UInt8) (n : UInt64) :
    word64 e (pre ++ e.bytes 8 n.toNat ++ post) pre.length = n := by
  have hslice := slice_append pre (e.bytes 8 n.toNat) post
  rw [length_bytes] at hslice
  have hlt : n.toNat < 256 ^ 8 := n.toNat_lt
  rw [word64, hslice, value_bytes, Nat.mod_eq_of_lt hlt, UInt64.ofNat_toNat]

/-! ## Words turned around -/

/-- The value in the other byte order. -/
theorem value_reverse (bs : List UInt8) : little.value bs.reverse = big.value bs := rfl

/-- The buffer with the `w` bytes from offset `i` on in reverse. -/
def reverseAt (data : List UInt8) (i w : Nat) : List UInt8 :=
  data.take i ++ ((slice data i w).reverse ++ data.drop (i + w))

/-- Where a byte of the turned buffer comes from. -/
def reverseIndex (i w j : Nat) : Nat := if i ≤ j ∧ j < i + w then 2 * i + w - 1 - j else j

theorem reverseIndex_reverseIndex (i w j : Nat) : reverseIndex i w (reverseIndex i w j) = j := by
  unfold reverseIndex
  split_ifs <;> omega

theorem getElem?_slice (data : List UInt8) (i w j : Nat) :
    (slice data i w)[j]? = if j < w then data[i + j]? else none := by
  rw [slice, List.getElem?_take]
  split
  case isTrue => rw [List.getElem?_drop]
  case isFalse => rfl

section ReverseAt

variable {data : List UInt8} {i w : Nat}

theorem length_slice (h : i + w ≤ data.length) : (slice data i w).length = w := by
  rw [slice, List.length_take, List.length_drop]
  omega

@[simp] theorem length_reverseAt (h : i + w ≤ data.length) :
    (reverseAt data i w).length = data.length := by
  simp only [reverseAt, List.length_append, List.length_take, List.length_reverse, length_slice h,
    List.length_drop]
  omega

theorem getElem?_reverseAt (h : i + w ≤ data.length) (j : Nat) :
    (reverseAt data i w)[j]? = data[reverseIndex i w j]? := by
  have htake : (data.take i).length = i := List.length_take_of_le (by omega)
  unfold reverseIndex
  by_cases hi : j < i
  · rw [if_neg (by omega), reverseAt, List.getElem?_append_left (by omega),
      List.getElem?_take_of_lt hi]
  · rw [reverseAt, List.getElem?_append_right (by omega), htake]
    by_cases hw : j - i < w
    · rw [if_pos (by omega), List.getElem?_append_left (by simp [length_slice h, hw]),
        List.getElem?_reverse (by simp [length_slice h, hw]), length_slice h, getElem?_slice,
        if_pos (by omega)]
      congr 1
      omega
    · rw [if_neg (by omega), List.getElem?_append_right (by simp [length_slice h]; omega),
        List.length_reverse, length_slice h, List.getElem?_drop]
      congr 1
      omega

theorem reverseAt_reverseAt (h : i + w ≤ data.length) :
    reverseAt (reverseAt data i w) i w = data := by
  refine List.ext_getElem? fun j => ?_
  rw [getElem?_reverseAt (by rwa [length_reverseAt h]), getElem?_reverseAt h,
    reverseIndex_reverseIndex]

theorem slice_reverseAt (h : i + w ≤ data.length) :
    slice (reverseAt data i w) i w = (slice data i w).reverse := by
  refine List.ext_getElem? fun j => ?_
  rw [getElem?_slice]
  split
  case isTrue hj =>
    rw [getElem?_reverseAt h, List.getElem?_reverse (by rwa [length_slice h]), length_slice h,
      getElem?_slice, if_pos (by omega), reverseIndex, if_pos (by omega)]
    congr 1
    omega
  case isFalse hj =>
    rw [List.getElem?_eq_none]
    rw [List.length_reverse, length_slice h]
    omega

/-- What does not meet the turned bytes stays. -/
theorem slice_reverseAt_of_disjoint {k v : Nat} (h : i + w ≤ data.length)
    (hdisj : k + v ≤ i ∨ i + w ≤ k) : slice (reverseAt data i w) k v = slice data k v := by
  refine List.ext_getElem? fun j => ?_
  rw [getElem?_slice, getElem?_slice]
  split
  case isTrue hj =>
    rw [getElem?_reverseAt h, reverseIndex, if_neg (by omega)]
  case isFalse => rfl

/-- Words apart from each other can be turned in any order. -/
theorem reverseAt_comm {k v : Nat} (hi : i + w ≤ data.length) (hk : k + v ≤ data.length)
    (hdisj : i + w ≤ k) :
    reverseAt (reverseAt data i w) k v = reverseAt (reverseAt data k v) i w := by
  have hindex : ∀ j, reverseIndex i w (reverseIndex k v j) = reverseIndex k v (reverseIndex i w j) := by
    intro j
    unfold reverseIndex
    split_ifs <;> omega
  refine List.ext_getElem? fun j => ?_
  rw [getElem?_reverseAt (by rwa [length_reverseAt hi]), getElem?_reverseAt hi,
    getElem?_reverseAt (by rwa [length_reverseAt hk]), getElem?_reverseAt hk, hindex]

end ReverseAt

end ByteOrder
