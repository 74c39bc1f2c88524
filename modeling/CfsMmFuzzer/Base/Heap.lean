-- SUMMARY: A byte-level heap of blocks, the C functions that work on it, and rules for records and strings inside one block.
import CfsMmFuzzer.Base.ByteOrder
import CfsMmFuzzer.Base.CString

/-!
# The heap

A heap is a collection of live blocks of bytes. An access outside a live block,
or a `free` of anything but the start of one, has no result, so a program that
returns `some` has used its memory safely. What `malloc` gives is decided
outside, by an `Allocator`.

A record lies in its block as the concatenation of its fields. The rules say
what an access to a field of such a block does.
-/

/-- A pointer into a block. -/
structure Ptr where
  block  : Nat
  offset : Nat
  deriving DecidableEq, Repr

/-- `(char *)p + n`. -/
def Ptr.add (p : Ptr) (n : Nat) : Ptr := { p with offset := p.offset + n }

/-- The bytes of the live blocks. -/
abbrev Heap := Nat → Option (List UInt8)

namespace Heap

/-! ## Blocks -/

/-- Replace a part of a block. Writing past its end has no result. -/
def overwrite (block : List UInt8) (i : Nat) (bytes : List UInt8) : Option (List UInt8) :=
  if i + bytes.length ≤ block.length then
    some (block.take i ++ bytes ++ block.drop (i + bytes.length))
  else none

/-- The heap where block `b` is `o`, and is not live where `o` is `none`. -/
def update (h : Heap) (b : Nat) (o : Option (List UInt8)) : Heap :=
  fun b' => if b' = b then o else h b'

def load (h : Heap) (p : Ptr) (w : Nat) : Option (List UInt8) := do
  ByteOrder.read (← h p.block) p.offset w

def store (h : Heap) (p : Ptr) (bytes : List UInt8) : Option Heap := do
  let block ← overwrite (← h p.block) p.offset bytes
  some (h.update p.block (some block))

/-- `free`. -/
def free (h : Heap) (p : Ptr) : Option Heap := do
  let _ ← h p.block
  if p.offset = 0 then some (h.update p.block none) else none

end Heap

/-- What `malloc` may do: it fails, or gives a block that was not live, of the right size and with
any contents. -/
structure Allocator where
  alloc : Heap → Nat → Option (Nat × List UInt8)
  fresh : ∀ {h size b block}, alloc h size = some (b, block) → h b = none ∧ block.length = size

namespace Heap

/-- `malloc`. -/
def malloc (h : Heap) (a : Allocator) (size : Nat) : Heap × Option Ptr :=
  match a.alloc h size with
  | none => (h, none)
  | some (b, block) => (h.update b (some block), some ⟨b, 0⟩)

/-! ## Strings -/

/-- The C string at `p`. The scan has no result where it runs off the end of the block. -/
def string (h : Heap) (p : Ptr) : Option CString := do
  let block ← h p.block
  (⟨block.drop p.offset, rfl⟩ : CharArray (block.drop p.offset).length).cstring?

/-- `strlen`. -/
def strlen (h : Heap) (p : Ptr) : Option Nat := (h.string p).map CString.length

/-- `memset`. -/
def memset (h : Heap) (p : Ptr) (c : UInt8) (n : Nat) : Option Heap := h.store p (.replicate n c)

/-- `strncpy`. -/
def strncpy (h : Heap) (p : Ptr) (src : CString) (n : Nat) : Option Heap :=
  h.store p (src.chars.take n ++ .replicate (n - src.length) 0)

/-- `strncat`. -/
def strncat (h : Heap) (p : Ptr) (src : CString) (n : Nat) : Option Heap := do
  h.store (p.add (← h.strlen p)) (src.chars.take n ++ [0])

/-! ## One block in focus -/

section Focus

variable {h h' : Heap} {b i w : Nat} {block bytes : List UInt8}

theorem update_update (o o' : Option (List UInt8)) : (h.update b o).update b o' = h.update b o' := by
  funext b'
  by_cases hb : b' = b <;> simp [update, hb]

@[simp] theorem update_same (o : Option (List UInt8)) : h.update b o b = o := if_pos rfl

/-- A block that was not live, and is freed. -/
theorem update_none (hb : h b = none) : h.update b none = h := by
  funext b'
  by_cases hb' : b' = b
  · rw [hb', update_same, hb]
  · exact if_neg hb'

theorem load_update : (h.update b (some block)).load ⟨b, i⟩ w = ByteOrder.read block i w := by
  simp [load]

theorem store_update : (h.update b (some block)).store ⟨b, i⟩ bytes =
    (overwrite block i bytes).map fun block' => h.update b (some block') := by
  cases ho : overwrite block i bytes <;> simp [store, ho, update_update]

theorem free_update : (h.update b (some block)).free ⟨b, 0⟩ = some (h.update b none) := by
  simp [free, update_update]

/-- Writing all of a block. -/
theorem overwrite_all (hlen : bytes.length = block.length) : overwrite block 0 bytes = some bytes := by
  simp [overwrite, hlen]

/-- Writing inside a part of a block. -/
theorem overwrite_append {pre post block' : List UInt8} (h : overwrite block i bytes = some block') :
    overwrite (pre ++ block ++ post) (pre.length + i) bytes = some (pre ++ block' ++ post) := by
  unfold overwrite at h ⊢
  split at h
  case isTrue hfit =>
    obtain rfl := Option.some.inj h
    rw [if_pos (by simp; omega)]
    refine congrArg some ?_
    have htake : (pre ++ block ++ post).take (pre.length + i) = pre ++ block.take i := by
      rw [List.append_assoc, List.take_length_add_append,
        List.take_append_of_le_length (by omega)]
    have hdrop : (pre ++ block ++ post).drop (pre.length + i + bytes.length) =
        block.drop (i + bytes.length) ++ post := by
      rw [List.append_assoc, Nat.add_assoc, List.drop_length_add_append,
        List.drop_append_of_le_length hfit]
    rw [htake, hdrop]
    simp only [List.append_assoc]
  case isFalse => cases h

end Focus

/-! ## Records -/

/-- Where field `i` of a record starts. -/
def fieldOffset (sizes : List Nat) (i : Nat) : Nat := (sizes.take i).sum

section Records

variable {fs : List (List UInt8)} {i k : Nat} {f f' bytes : List UInt8}

/-- A record around one of its fields. -/
theorem flatten_eq_around (hf : fs[i]? = some f) :
    fs.flatten = (fs.take i).flatten ++ f ++ (fs.drop (i + 1)).flatten := by
  obtain ⟨hi, rfl⟩ := List.getElem?_eq_some_iff.mp hf
  have hcut : fs = fs.take i ++ fs[i] :: fs.drop (i + 1) := by
    rw [← List.drop_eq_getElem_cons hi, List.take_append_drop]
  conv_lhs => rw [hcut]
  rw [List.flatten_append, List.flatten_cons, List.append_assoc]

theorem length_flatten_take (fs : List (List UInt8)) (i : Nat) :
    (fs.take i).flatten.length = fieldOffset (fs.map List.length) i := by
  rw [fieldOffset, ← List.map_take, List.length_flatten]

theorem set_eq_around (hf : fs[i]? = some f) :
    (fs.set i f').flatten = (fs.take i).flatten ++ f' ++ (fs.drop (i + 1)).flatten := by
  obtain ⟨hi, rfl⟩ := List.getElem?_eq_some_iff.mp hf
  rw [List.set_eq_take_append_cons_drop, if_pos hi]
  simp

/-- Writing inside a field of a record. -/
theorem overwrite_field (hf : fs[i]? = some f) (ho : overwrite f k bytes = some f') :
    overwrite fs.flatten (fieldOffset (fs.map List.length) i + k) bytes =
      some (fs.set i f').flatten := by
  rw [set_eq_around hf, flatten_eq_around hf, ← length_flatten_take]
  exact overwrite_append ho

/-- Reading a field of a record. -/
theorem read_field (hf : fs[i]? = some f) :
    ByteOrder.read fs.flatten (fieldOffset (fs.map List.length) i) f.length = some f := by
  rw [flatten_eq_around hf, ← length_flatten_take, ByteOrder.read_of_le (by simp),
    ByteOrder.slice_append]

/-- A string that ends inside its field. -/
theorem scan_field {cs : List UInt8} (hf : fs[i]? = some f) (hcs : scan f = some cs) :
    scan (fs.flatten.drop (fieldOffset (fs.map List.length) i)) = some cs := by
  obtain ⟨hno, tail, rfl⟩ := scan_eq_some_iff.mp hcs
  rw [flatten_eq_around hf, ← length_flatten_take, List.append_assoc, List.drop_left,
    List.append_assoc]
  exact scan_append_zero hno

end Records

/-! ## Character arrays -/

section CharArrays

variable {n k : Nat} {a a' : CharArray n} {src s : CString}

theorem overwrite_set {i : Nat} {c : UInt8} (h : a.set i c = some a') :
    overwrite a.bytes i [c] = some a'.bytes := by
  unfold CharArray.set at h
  split at h
  case isTrue hi =>
    obtain rfl := Option.some.inj h
    rw [overwrite, if_pos (by simp; omega)]
    have hset : a.bytes.set i c = a.bytes.take i ++ c :: a.bytes.drop (i + 1) := by
      rw [List.set_eq_take_append_cons_drop, if_pos (by simpa using hi)]
    simp [hset]
  case isFalse => cases h

theorem overwrite_strncpy (h : a.strncpy src k = some a') :
    overwrite a.bytes 0 (src.chars.take k ++ .replicate (k - src.length) 0) = some a'.bytes := by
  unfold CharArray.strncpy at h
  split at h
  case isTrue hk =>
    obtain rfl := Option.some.inj h
    have hlen : (src.chars.take k ++ List.replicate (k - src.length) 0).length = k := by
      simp [CString.length]
      omega
    rw [overwrite, hlen, if_pos (by simpa using hk)]
    simp
  case isFalse => cases h

theorem overwrite_strncat (hs : a.cstring? = some s) (h : a.strncat src k = some a') :
    overwrite a.bytes s.length (src.chars.take k ++ [0]) = some a'.bytes := by
  unfold CharArray.strncat at h
  rw [hs] at h
  simp only at h
  split at h
  case isTrue hfit =>
    obtain rfl := Option.some.inj h
    obtain ⟨-, tail, hbytes⟩ := scan_eq_some_iff.mp (CharArray.cstring?_eq_some_iff.mp hs)
    have hlen : s.length + (src.chars.take k ++ [0]).length = s.length + min k src.length + 1 := by
      simp [CString.length]
      omega
    have htake : a.bytes.take s.length = s.chars := by
      rw [hbytes]
      exact List.take_left
    rw [overwrite, hlen, if_pos (by simpa using hfit), htake]
    simp
  case isFalse => cases h

end CharArrays

/-! ## A record in a block -/

/-- The heap where block `b` holds a record. -/
def record (h : Heap) (b : Nat) (fs : List (List UInt8)) : Heap := h.update b (some fs.flatten)

section Record

variable {h : Heap} {b i k n : Nat} {fs : List (List UInt8)} {f f' bytes : List UInt8}
  {a a' : CharArray n} {src s : CString}

theorem store_record (hf : fs[i]? = some f) (ho : overwrite f k bytes = some f') :
    (h.record b fs).store ⟨b, fieldOffset (fs.map List.length) i + k⟩ bytes =
      some (h.record b (fs.set i f')) := by
  rw [record, store_update, overwrite_field hf ho]
  rfl

theorem load_record (hf : fs[i]? = some f) :
    (h.record b fs).load ⟨b, fieldOffset (fs.map List.length) i⟩ f.length = some f := by
  rw [record, load_update, read_field hf]

theorem string_record (hf : fs[i]? = some a.bytes) (hs : a.cstring? = some s) :
    (h.record b fs).string ⟨b, fieldOffset (fs.map List.length) i⟩ = some s := by
  simp only [string, record, update_same, Option.bind_eq_bind, Option.bind_some]
  rw [CharArray.cstring?_eq_some_iff]
  exact scan_field hf (CharArray.cstring?_eq_some_iff.mp hs)

theorem strncpy_record (hf : fs[i]? = some a.bytes) (ha : a.strncpy src k = some a') :
    (h.record b fs).strncpy ⟨b, fieldOffset (fs.map List.length) i⟩ src k =
      some (h.record b (fs.set i a'.bytes)) :=
  store_record hf (overwrite_strncpy ha)

theorem strncat_record (hf : fs[i]? = some a.bytes) (hs : a.cstring? = some s)
    (ha : a.strncat src k = some a') :
    (h.record b fs).strncat ⟨b, fieldOffset (fs.map List.length) i⟩ src k =
      some (h.record b (fs.set i a'.bytes)) := by
  rw [strncat, strlen, string_record hf hs]
  exact store_record hf (overwrite_strncat hs ha)

end Record

end Heap
