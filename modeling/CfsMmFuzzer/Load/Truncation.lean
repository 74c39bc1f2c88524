-- SUMMARY: What the packet constructor would make of short inputs, field by field, and that its length guard keeps all of them out.
import CfsMmFuzzer.Load.Decoder

/-!
# Short inputs

Every section of the constructor has a fallback for an input that ends before
its field. `decodeSections` is the constructor behind its length guard: it
decodes inputs of every length with these fallbacks. The guard asks for as many
bytes as the packet has, which is more than the sections read, so no fallback is
ever taken.
-/

namespace MM

open ByteOrder (word32 word64)

/-! ## Fields or defaults -/

/-- Where the cursor is behind a field of `w` bytes: it moves if all of them remain. -/
def cursorAfter (size cursor w : Nat) : Nat :=
  if cursor + w ≤ size then cursor + w else cursor

theorem cursorAfter_of_le {size cursor w : Nat} (h : cursor + w ≤ size) :
    cursorAfter size cursor w = cursor + w := if_pos h

theorem cursorAfter_of_not_le {size cursor w : Nat} (h : ¬ cursor + w ≤ size) :
    cursorAfter size cursor w = cursor := if_neg h

def numOfBytesAt (size : Nat) : Nat := cursorAfter size 0 1
def crcAt (size : Nat) : Nat := cursorAfter size (numOfBytesAt size) 4
def choiceAt (size : Nat) : Nat := cursorAfter size (crcAt size) 4
def destAt (size : Nat) : Nat := cursorAfter size (choiceAt size) 1

/-- Behind the destination: a symbol takes one byte, an offset eight. -/
def pathAt (data : List UInt8) : Nat :=
  cursorAfter data.length (destAt data.length)
    (if byteAt data (choiceAt data.length) % 2 = 0 then 1 else 8)

/-- The default address of a memory type. -/
def baseAddr (t : CFS.Target) (memType : UInt8) : UInt64 :=
  if memType = 1 then t.defaultRamAddr else t.defaultEepromAddr

theorem noNul_defaultFile : 0 ∉ CString.ascii "/cf/apps/default.bin" := by decide

/-- The file name of an input that ends before its directory. -/
def defaultFile : CString := ⟨CString.ascii "/cf/apps/default.bin", noNul_defaultFile⟩

/-- The destination of an input: nothing where the choice byte is missing or the
symbol's index, and the default address where the offset is. -/
def destOrDefault (t : CFS.Target) (e : ByteOrder) (data : List UInt8) (memType : UInt8) :
    SymAddr :=
  if choiceAt data.length < data.length then
    if byteAt data (choiceAt data.length) % 2 = 0 then
      if destAt data.length < data.length then
        ⟨.pad _ (symbolAt (symbolIndex (byteAt data (destAt data.length)))), .zeros 4, 0⟩
      else ⟨.zeros _, .zeros 4, 0⟩
    else if destAt data.length + 8 ≤ data.length then
      ⟨.zeros _, .zeros 4, baseAddr t memType +
        UInt64.ofNat (offsetIndex (word64 e data (destAt data.length)))⟩
    else ⟨.zeros _, .zeros 4, baseAddr t memType⟩
  else ⟨.zeros _, .zeros 4, 0⟩

/-- Every field of the packet is taken from the input where enough bytes remain
at its cursor, and is its default otherwise. -/
structure FieldsOrDefaults (t : CFS.Target) (e : ByteOrder) (data : List UInt8)
    (p : LoadMemFromFileCmd) : Prop where
  cmdHeader : p.cmdHeader = loadHeader
  memType : p.memType =
    if 0 < data.length then (MemType.ofByte (byteAt data 0)).code else 1
  numOfBytes : p.numOfBytes =
    if numOfBytesAt data.length + 4 ≤ data.length then
      word32 e data (numOfBytesAt data.length) %
        (if p.memType = 1 then 1024 * 1024 else 128 * 1024) + 1
    else 1024
  crc : p.crc =
    if crcAt data.length + 4 ≤ data.length then word32 e data (crcAt data.length) else 0
  dest : p.destSymAddress = destOrDefault t e data p.memType
  fileName : p.fileName = .pad _
    (if pathAt data < data.length then fileNameAt (pathIndex (byteAt data (pathAt data)))
      else defaultFile)
  padding1 : p.padding1 = .zeros 3
  padding2 : p.padding2 = .zeros 4

/-! ## The sections on every input -/

/-- The constructor behind its length guard. -/
def decodeSections (t : CFS.Target) (e : ByteOrder) (data : List UInt8) : Option DecodeState := do
  let s : DecodeState := { packet := initHeader .cleared, dataOffset := 0 }
  let s ← decodeMemType data s
  let s ← decodeNumOfBytes e data s
  let s ← decodeCrc e data s
  let s ← decodeDest t e data s
  decodeFileName data s

theorem loadConstructPacket_eq_guard (t : CFS.Target) (e : ByteOrder) (block : LoadMemFromFileCmd)
    (data : List UInt8) :
    loadConstructPacket t e (some block) data =
      if data.length < sizeofLoadMemFromFileCmd then some none
      else (decodeSections t e data).map fun s => some s.packet := by
  unfold loadConstructPacket decodeSections
  split
  case isTrue => rfl
  case isFalse =>
    rw [Option.map_eq_bind]
    simp only [Option.bind_eq_bind, Option.bind_assoc]
    rfl

section Sections

variable {t : CFS.Target} {e : ByteOrder} {data : List UInt8} (s : DecodeState)

theorem decodeMemType_total :
    decodeMemType data s = some
      { packet := { s.packet with
          memType := if s.dataOffset < data.length then
            (MemType.ofByte (byteAt data s.dataOffset)).code else ram }
        dataOffset := cursorAfter data.length s.dataOffset 1 } := by
  by_cases h : s.dataOffset < data.length
  · rw [decodeMemType_eq h, if_pos h, cursorAfter_of_le h]
  · rw [if_neg h, cursorAfter_of_not_le h]
    exact if_neg h

theorem decodeNumOfBytes_total :
    decodeNumOfBytes e data s = some
      { packet := { s.packet with
          numOfBytes := if s.dataOffset + 4 ≤ data.length then
            word32 e data s.dataOffset % maxLoadFileData s.packet.memType + 1 else 1024 }
        dataOffset := cursorAfter data.length s.dataOffset 4 } := by
  by_cases h : s.dataOffset + 4 ≤ data.length
  · rw [decodeNumOfBytes_eq h, if_pos h, cursorAfter_of_le h]
  · rw [if_neg h, cursorAfter_of_not_le h]
    exact if_neg h

theorem decodeCrc_total :
    decodeCrc e data s = some
      { packet := { s.packet with
          crc := if s.dataOffset + 4 ≤ data.length then word32 e data s.dataOffset else 0 }
        dataOffset := cursorAfter data.length s.dataOffset 4 } := by
  by_cases h : s.dataOffset + 4 ≤ data.length
  · rw [decodeCrc_eq h, if_pos h, cursorAfter_of_le h]
  · rw [if_neg h, cursorAfter_of_not_le h]
    exact if_neg h

theorem decodeFileName_total :
    decodeFileName data s = some
      { packet := { s.packet with
          fileName := .pad _ (if s.dataOffset < data.length then
            fileNameAt (pathIndex (byteAt data s.dataOffset)) else defaultFilename) }
        dataOffset := cursorAfter data.length s.dataOffset 1 } := by
  by_cases h : s.dataOffset < data.length
  · rw [decodeFileName_eq h, if_pos h, cursorAfter_of_le h]
  · have hsize : (UInt64.ofNat OS.maxPathLen).toNat = OS.maxPathLen := rfl
    rw [if_neg h, cursorAfter_of_not_le h, decodeFileName, if_neg h,
      CFS.safeStrncpy_eq _ _ hsize (by decide),
      CString.take_of_length_le (show defaultFilename.length ≤ OS.maxPathLen - 1 by decide)]
    rfl

theorem decodeSymbol_total (hzero : s.packet.destSymAddress = ⟨.zeros _, .zeros 4, 0⟩) :
    decodeSymbol data s = some
      { packet := { s.packet with destSymAddress :=
          if s.dataOffset < data.length then
            ⟨.pad _ (symbolAt (symbolIndex (byteAt data s.dataOffset))), .zeros 4, 0⟩
          else ⟨.zeros _, .zeros 4, 0⟩ }
        dataOffset := cursorAfter data.length s.dataOffset 1 } := by
  by_cases h : s.dataOffset < data.length
  · rw [decodeSymbol_eq h, if_pos h, cursorAfter_of_le h, hzero]
  · rw [if_neg h, cursorAfter_of_not_le h, ← hzero]
    exact if_neg fun hsym => h hsym.2

theorem decodeOffset_total (hzero : s.packet.destSymAddress = ⟨.zeros _, .zeros 4, 0⟩) :
    decodeOffset t e data s = some
      { packet := { s.packet with destSymAddress :=
          if s.dataOffset + 8 ≤ data.length then
            ⟨.zeros _, .zeros 4, defaultAddr t s.packet.memType +
              UInt64.ofNat (offsetIndex (word64 e data s.dataOffset))⟩
          else ⟨.zeros _, .zeros 4, defaultAddr t s.packet.memType⟩ }
        dataOffset := cursorAfter data.length s.dataOffset 8 } := by
  by_cases h : s.dataOffset + 8 ≤ data.length
  · have hname : s.packet.destSymAddress.symName = .zeros _ := by rw [hzero]
    rw [decodeOffset_eq h hname, if_pos h, cursorAfter_of_le h, hzero]
  · have hset : (CharArray.zeros OS.maxApiName).set 0 0 = some (.zeros _) := by decide
    rw [if_neg h, cursorAfter_of_not_le h]
    simp only [decodeOffset, hzero, hset, Option.bind_eq_bind, Option.bind_some, h, if_false]

/-- Where the choice byte is missing, so is everything behind it. -/
theorem pathAt_of_missing (h : ¬ choiceAt data.length < data.length) :
    pathAt data = choiceAt data.length := by
  have hdest : destAt data.length = choiceAt data.length := cursorAfter_of_not_le h
  unfold pathAt
  rw [hdest]
  refine cursorAfter_of_not_le ?_
  split <;> omega

theorem destAt_of_lt (h : choiceAt data.length < data.length) :
    destAt data.length = choiceAt data.length + 1 := cursorAfter_of_le h

theorem decodeDest_total (hzero : s.packet.destSymAddress = ⟨.zeros _, .zeros 4, 0⟩)
    (hat : s.dataOffset = choiceAt data.length) :
    decodeDest t e data s = some
      { packet := { s.packet with destSymAddress := destOrDefault t e data s.packet.memType }
        dataOffset := pathAt data } := by
  unfold decodeDest destOrDefault
  rw [hat]
  by_cases h : choiceAt data.length < data.length
  case neg =>
    rw [if_neg h, if_neg h, pathAt_of_missing h, ← hat, ← hzero]
  case pos =>
    rw [if_pos h, if_pos h, getElem?_eq_byteAt h, ← destAt_of_lt h]
    simp only [Option.bind_eq_bind, Option.bind_some]
    unfold pathAt
    by_cases heven : byteAt data (choiceAt data.length) % 2 = 0
    · rw [if_pos heven, if_pos heven, if_pos heven]
      exact decodeSymbol_total _ hzero
    · rw [if_neg heven, if_neg heven, if_neg heven]
      exact decodeOffset_total _ hzero

end Sections

/-- Behind the guard, the constructor decodes inputs of every length, and reads
none of them past its end. -/
theorem decodeSections_total (t : CFS.Target) (e : ByteOrder) (data : List UInt8) :
    ∃ s, decodeSections t e data = some s ∧ FieldsOrDefaults t e data s.packet := by
  have hheader : initHeader .cleared =
      { LoadMemFromFileCmd.cleared with cmdHeader := loadHeader } := by
    decide
  unfold decodeSections
  rw [hheader]
  simp only [Option.bind_eq_bind, decodeMemType_total, decodeNumOfBytes_total, decodeCrc_total,
    Option.bind_some]
  rw [decodeDest_total _ rfl rfl]
  simp only [Option.bind_some, decodeFileName_total]
  exact ⟨_, rfl, rfl, rfl, rfl, rfl, rfl, rfl, rfl, rfl⟩

/-- **The fallbacks are never taken**: the constructor gives a packet of fields or
defaults exactly for the inputs of packet length or more. -/
theorem loadConstructPacket_fieldsOrDefaults_iff (t : CFS.Target) (e : ByteOrder)
    (block : LoadMemFromFileCmd) (data : List UInt8) :
    (∃ p, loadConstructPacket t e (some block) data = some (some p) ∧
        FieldsOrDefaults t e data p) ↔
      sizeofLoadMemFromFileCmd ≤ data.length := by
  rw [loadConstructPacket_eq_guard]
  constructor
  · intro ⟨p, hp, _⟩
    by_contra hshort
    rw [if_pos (Nat.lt_of_not_le hshort)] at hp
    cases hp
  · intro hlen
    obtain ⟨s, hs, hfields⟩ := decodeSections_total t e data
    rw [if_neg (Nat.not_lt_of_le hlen), hs]
    exact ⟨s.packet, rfl, hfields⟩

/-- The vector of the standalone test is refused. -/
theorem loadConstructPacket_testData :
    loadConstructPacket .default .little (some .cleared) testData = some none ∧
      ¬ ∃ p, loadConstructPacket .default .little (some .cleared) testData = some (some p) := by
  have hnull : loadConstructPacket .default .little (some .cleared) testData = some none := rfl
  refine ⟨hnull, ?_⟩
  intro ⟨p, hp⟩
  rw [hnull] at hp
  cases hp

/-- Every input of the test's length is refused, so the test exits with 1. -/
theorem standaloneMain_eq (t : CFS.Target) (e : ByteOrder) (block : Option LoadMemFromFileCmd) :
    standaloneMain t e block = some 1 := by
  have hnull : loadConstructPacket t e block testData = some none := if_pos (by decide)
  unfold standaloneMain
  rw [hnull]
  rfl

end MM
