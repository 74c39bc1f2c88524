-- SUMMARY: The load command as a C object: its fields with their padding, and its bytes in memory.
import Mathlib.Data.List.SplitLengths
import CfsMmFuzzer.Base.ByteOrder
import CfsMmFuzzer.Common.CfsConfig

/-!
# MM types (`mm_types.h`)

`MM_LoadMemFromFileCmd_t` is modelled with the bytes the compiler leaves between
its members on a 64-bit ABI, where `NumOfBytes` is aligned to 4 and `Offset`
to 8. `toBytes` lays an object out in memory, and every 120-byte image is that
of exactly one object.
-/

namespace MM

/-- `MM_SymAddr_t`. -/
@[ext]
structure SymAddr where
  symName : CharArray OS.maxApiName
  padding : CharArray 4
  offset  : UInt64
  deriving DecidableEq

/-- `MM_LoadMemFromFileCmd_t`. -/
@[ext]
structure LoadMemFromFileCmd where
  cmdHeader      : CFE.CommandHeader
  memType        : UInt8
  padding1       : CharArray 3
  numOfBytes     : UInt32
  crc            : UInt32
  padding2       : CharArray 4
  destSymAddress : SymAddr
  fileName       : CharArray OS.maxPathLen
  deriving DecidableEq

/-- `sizeof(MM_LoadMemFromFileCmd_t)`. -/
def sizeofLoadMemFromFileCmd : Nat := 120

namespace LoadMemFromFileCmd

/-! ## Memory layout -/

/-- The members of a command in memory order, each as its bytes. -/
def fields (e : ByteOrder) (p : LoadMemFromFileCmd) : List (List UInt8) :=
  [e.bytes 2 p.cmdHeader.streamId.toNat,
   e.bytes 2 p.cmdHeader.sequence.toNat,
   e.bytes 2 p.cmdHeader.length.toNat,
   e.bytes 2 p.cmdHeader.spare.toNat,
   [p.memType],
   p.padding1.bytes,
   e.bytes 4 p.numOfBytes.toNat,
   e.bytes 4 p.crc.toNat,
   p.padding2.bytes,
   p.destSymAddress.symName.bytes,
   p.destSymAddress.padding.bytes,
   e.bytes 8 p.destSymAddress.offset.toNat,
   p.fileName.bytes]

/-- The bytes of a command in memory. -/
def toBytes (e : ByteOrder) (p : LoadMemFromFileCmd) : List UInt8 := (p.fields e).flatten

/-- The sizes of the members, padding included. -/
def fieldSizes : List Nat := [2, 2, 2, 2, 1, 3, 4, 4, 4, 20, 4, 8, 64]

theorem map_length_fields (e : ByteOrder) (p : LoadMemFromFileCmd) :
    (p.fields e).map List.length = fieldSizes := by
  simp [fields, fieldSizes, OS.maxApiName, OS.maxPathLen]

theorem length_toBytes (e : ByteOrder) (p : LoadMemFromFileCmd) :
    (p.toBytes e).length = sizeofLoadMemFromFileCmd := by
  rw [toBytes, List.length_flatten, map_length_fields]
  rfl

/-- A command is determined by its bytes. -/
theorem toBytes_inj {e : ByteOrder} {p q : LoadMemFromFileCmd} :
    p.toBytes e = q.toBytes e ↔ p = q := by
  refine ⟨fun h => ?_, fun h => h ▸ rfl⟩
  have hfields : p.fields e = q.fields e :=
    List.eq_iff_flatten_eq.mpr ⟨h, by rw [map_length_fields, map_length_fields]⟩
  obtain ⟨⟨_, _, _, _⟩, _, _, _, _, _, ⟨_, _, _⟩, _⟩ := p
  obtain ⟨⟨_, _, _, _⟩, _, _, _, _, _, ⟨_, _, _⟩, _⟩ := q
  simpa [fields, and_assoc] using hfields

/-- Every image of the right size is that of a command. -/
theorem exists_toBytes_eq (e : ByteOrder) {bs : List UInt8}
    (h : bs.length = sizeofLoadMemFromFileCmd) : ∃ p : LoadMemFromFileCmd, p.toBytes e = bs := by
  have hflat := List.flatten_splitLengths bs fieldSizes h.le
  have hlens := List.map_splitLengths_length bs fieldSizes h.ge
  -- cut the image into the members
  generalize fieldSizes.splitLengths bs = fs at hflat hlens
  simp only [fieldSizes, List.map_eq_cons_iff, List.map_eq_nil_iff] at hlens
  obtain ⟨streamId, _, rfl, h₁, sequence, _, rfl, h₂, length, _, rfl, h₃, spare, _, rfl, h₄,
    memType, _, rfl, h₅, padding1, _, rfl, h₆, numOfBytes, _, rfl, h₇, crc, _, rfl, h₈,
    padding2, _, rfl, h₉, symName, _, rfl, h₁₀, padding, _, rfl, h₁₁, offset, _, rfl, h₁₂,
    fileName, _, rfl, h₁₃, rfl⟩ := hlens
  obtain ⟨memByte, rfl⟩ := List.length_eq_one_iff.mp h₅
  refine ⟨{
    cmdHeader := ⟨.ofNat (e.value streamId), .ofNat (e.value sequence),
      .ofNat (e.value length), .ofNat (e.value spare)⟩
    memType := memByte
    padding1 := ⟨padding1, h₆⟩
    numOfBytes := .ofNat (e.value numOfBytes)
    crc := .ofNat (e.value crc)
    padding2 := ⟨padding2, h₉⟩
    destSymAddress := ⟨⟨symName, h₁₀⟩, ⟨padding, h₁₁⟩, .ofNat (e.value offset)⟩
    fileName := ⟨fileName, h₁₃⟩ }, ?_⟩
  simp only [toBytes, fields, ByteOrder.bytes_uint16_value, ByteOrder.bytes_uint32_value,
    ByteOrder.bytes_uint64_value, h₁, h₂, h₃, h₄, h₇, h₈, h₁₂]
  exact hflat

end LoadMemFromFileCmd

/-! ## Alignment -/

/-- The argument `boundary` of `MM_ALIGN_TO_BOUNDARY`, in the type that holds it. -/
inductive Boundary where
  | uint32 (value : UInt32)
  | uint64 (value : UInt64)
  deriving DecidableEq

namespace Boundary

/-- `boundary`, converted to the type of a 64-bit address. -/
def toUInt64 : Boundary → UInt64
  | uint32 value => value.toUInt64
  | uint64 value => value

/-- `~((boundary) - 1)`, converted to the type of a 64-bit address. The difference
and the complement are taken in the type of `boundary`: an `int` has 32 bits, so
the literal 1 widens neither type. -/
def mask : Boundary → UInt64
  | uint32 value => (~~~(value - 1)).toUInt64
  | uint64 value => ~~~(value - 1)

end Boundary

/-- `MM_ALIGN_TO_BOUNDARY` of a 64-bit address. -/
def alignToBoundary (addr : UInt64) (boundary : Boundary) : UInt64 :=
  (addr + boundary.toUInt64 - 1) &&& boundary.mask

end MM
