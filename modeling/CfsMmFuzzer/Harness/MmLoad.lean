-- SUMMARY: The load harness: bounded string macros, the packet constructor, the simulated command, and one fuzz iteration.
import CfsMmFuzzer.Common.Utils

/-!
# The load harness (`mm_load_harness.c`)

`constructPacket` decodes fuzz input into a command through a cursor, one
section of the C function after the other. An access outside an object has no
result (the outer `Option`); a `NULL` return is the inner `none`.

The parameters are what the C code takes from its environment: the target it is
compiled for, the byte order of the host, and the block that `malloc` returns
(`none` for `NULL`, else an object with arbitrary contents).
-/

namespace CFS

/-! ## String macros -/

/-- `CFS_SAFE_STRNCPY`. -/
def safeStrncpy {n : Nat} (dst : CharArray n) (src : CString) (size : UInt64) :
    Option (CharArray n) :=
  if size > 0 then
    (dst.strncpy src (size - 1).toNat).bind (·.set (size - 1).toNat 0)
  else some dst

/-- `CFS_SAFE_STRNCAT`. The bound is computed in `size_t`. -/
def safeStrncat {n : Nat} (dst : CharArray n) (src : CString) (size : UInt64) :
    Option (CharArray n) :=
  if size > 0 then do
    let s ← dst.cstring?
    dst.strncat src (size - UInt64.ofNat s.length - 1).toNat
  else some dst

/-- `CFS_SAFE_MEMCPY` out of the input. Its pointers are never `NULL` here. -/
def safeMemcpy (data : List UInt8) (offset size : Nat) : Option (List UInt8) :=
  if size > 0 then ByteOrder.read data offset size else some []

end CFS

namespace MM

/-! ## Packet construction -/

/-- The locals of `MM_Load_ConstructPacket`. -/
structure DecodeState where
  packet     : LoadMemFromFileCmd
  dataOffset : Nat

/-- `memset(packet, 0, PACKET_SIZE)`. -/
def LoadMemFromFileCmd.cleared : LoadMemFromFileCmd where
  cmdHeader := ⟨0, 0, 0, 0⟩
  memType := 0
  padding1 := .zeros 3
  numOfBytes := 0
  crc := 0
  padding2 := .zeros 4
  destSymAddress := ⟨.zeros _, .zeros 4, 0⟩
  fileName := .zeros _

/-- The header section. -/
def initHeader (packet : LoadMemFromFileCmd) : LoadMemFromFileCmd :=
  let msg : CFE.Message := ⟨packet.cmdHeader⟩
  let msg := msg.setMsgId (CFE.valueToMsgId cmdMid)
  let msg := msg.setSize (UInt16.ofNat sizeofLoadMemFromFileCmd)
  let msg := msg.setSequenceCount 0
  let msg := msg.setSegmentationFlag 0x3
  let msg := msg.setFcnCode loadMemFromFileCc
  { packet with cmdHeader := msg.hdr }

/-- The `MemType` section. -/
def decodeMemType (data : List UInt8) (s : DecodeState) : Option DecodeState :=
  if s.dataOffset < data.length then do
    let byte ← data[s.dataOffset]?
    some { packet := { s.packet with memType := byte % 2 + 1 }
           dataOffset := s.dataOffset + 1 }
  else some { s with packet := { s.packet with memType := ram } }

/-- `(packet->MemType == MM_RAM) ? MM_MAX_LOAD_FILE_DATA_RAM : MM_MAX_LOAD_FILE_DATA_EEPROM`,
in the constructor and in the simulation. -/
def maxLoadFileData (memType : UInt8) : UInt32 :=
  if memType = ram then maxLoadFileDataRam else maxLoadFileDataEeprom

/-- The `NumOfBytes` section. -/
def decodeNumOfBytes (e : ByteOrder) (data : List UInt8) (s : DecodeState) :
    Option DecodeState :=
  let maxBytes := maxLoadFileData s.packet.memType
  if s.dataOffset + 4 ≤ data.length then do
    let bytes ← CFS.safeMemcpy data s.dataOffset 4
    let word := UInt32.ofNat (e.value bytes)
    some { packet := { s.packet with numOfBytes := word % maxBytes + 1 }
           dataOffset := s.dataOffset + 4 }
  else some { s with packet := { s.packet with numOfBytes := 1024 } }

/-- The `CRC` section. -/
def decodeCrc (e : ByteOrder) (data : List UInt8) (s : DecodeState) : Option DecodeState :=
  if s.dataOffset + 4 ≤ data.length then do
    let bytes ← CFS.safeMemcpy data s.dataOffset 4
    some { packet := { s.packet with crc := UInt32.ofNat (e.value bytes) }
           dataOffset := s.dataOffset + 4 }
  else some { s with packet := { s.packet with crc := 0 } }

/-- `(packet->MemType == MM_RAM) ? CFS_DEFAULT_RAM_ADDR : CFS_DEFAULT_EEPROM_ADDR`. -/
def defaultAddr (t : CFS.Target) (memType : UInt8) : UInt64 :=
  if memType = ram then t.defaultRamAddr else t.defaultEepromAddr

/-- The symbol branch of the destination section. -/
def decodeSymbol (data : List UInt8) (s : DecodeState) : Option DecodeState :=
  if CFS.numValidSymbols > 0 ∧ s.dataOffset < data.length then do
    let byte ← data[s.dataOffset]?
    let symbol ← CFS.validSymbols[byte.toNat % CFS.numValidSymbols]?
    let dest := s.packet.destSymAddress
    let symName ← CFS.safeStrncpy dest.symName symbol (UInt64.ofNat OS.maxApiName)
    some { packet := { s.packet with
             destSymAddress := { dest with symName := symName, offset := 0 } }
           dataOffset := s.dataOffset + 1 }
  else some s

/-- The offset branch of the destination section. -/
def decodeOffset (t : CFS.Target) (e : ByteOrder) (data : List UInt8) (s : DecodeState) :
    Option DecodeState := do
  let dest := s.packet.destSymAddress
  let symName ← dest.symName.set 0 0
  let baseAddr := defaultAddr t s.packet.memType
  if s.dataOffset + 8 ≤ data.length then do
    let bytes ← CFS.safeMemcpy data s.dataOffset 8
    let word := UInt64.ofNat (e.value bytes)
    some { packet := { s.packet with
             destSymAddress :=
               { dest with symName := symName, offset := baseAddr + (word &&& 0x7FFFFFFF) } }
           dataOffset := s.dataOffset + 8 }
  else some { s with packet := { s.packet with
         destSymAddress := { dest with symName := symName, offset := baseAddr } } }

/-- The destination section. -/
def decodeDest (t : CFS.Target) (e : ByteOrder) (data : List UInt8) (s : DecodeState) :
    Option DecodeState :=
  if s.dataOffset < data.length then do
    let choiceByte ← data[s.dataOffset]?
    let s' := { s with dataOffset := s.dataOffset + 1 }
    if choiceByte % 2 = 0 then decodeSymbol data s' else decodeOffset t e data s'
  else some s

/-- The literal `"testfile.bin"`. -/
def filenameSuffix : CString := ⟨CString.ascii "testfile.bin", by decide⟩

/-- The literal `"/cf/apps/default.bin"`. -/
def defaultFilename : CString := ⟨CString.ascii "/cf/apps/default.bin", by decide⟩

/-- The file-name field once the entry `path` of `cfs_valid_paths` is selected. -/
def composeFileName (path : CString) (fileName : CharArray OS.maxPathLen) :
    Option (CharArray OS.maxPathLen) := do
  let size := UInt64.ofNat OS.maxPathLen
  let fileName ← CFS.safeStrncpy fileName path size
  let current ← fileName.cstring?
  let remaining := size - UInt64.ofNat current.length - 1
  if remaining > UInt64.ofNat filenameSuffix.length then
    CFS.safeStrncat fileName filenameSuffix size
  else some fileName

/-- The file-name section. -/
def decodeFileName (data : List UInt8) (s : DecodeState) : Option DecodeState :=
  if s.dataOffset < data.length then do
    let byte ← data[s.dataOffset]?
    let path ← CFS.validPaths[byte.toNat % CFS.numValidPaths]?
    let fileName ← composeFileName path s.packet.fileName
    some { packet := { s.packet with fileName := fileName }
           dataOffset := s.dataOffset + 1 }
  else do
    let fileName ←
      CFS.safeStrncpy s.packet.fileName defaultFilename (UInt64.ofNat OS.maxPathLen)
    some { s with packet := { s.packet with fileName := fileName } }

/-- `MM_Load_ConstructPacket`. -/
def loadConstructPacket (t : CFS.Target) (e : ByteOrder) (block : Option LoadMemFromFileCmd)
    (data : List UInt8) : Option (Option LoadMemFromFileCmd) :=
  if data.length < sizeofLoadMemFromFileCmd then some none
  else match block with
    | none => some none
    | some _ => do
        let s : DecodeState := { packet := initHeader .cleared, dataOffset := 0 }
        let s ← decodeMemType data s
        let s ← decodeNumOfBytes e data s
        let s ← decodeCrc e data s
        let s ← decodeDest t e data s
        let s ← decodeFileName data s
        some (some s.packet)

/-! ## The simulated command -/

/-- The address resolution inlined in the simulation. -/
def resolveInline (t : CFS.Target) (dest : SymAddr) : Option UInt64 := do
  let name ← dest.symName.cstring?
  if name.length > 0 then
    some (t.defaultRamAddr + UInt64.ofNat name.length * 0x1000 + dest.offset)
  else some dest.offset

/-- `MM_LoadMemFromFileCmd_Simulation`. -/
def loadMemFromFileCmdSimulation (t : CFS.Target) :
    Option LoadMemFromFileCmd → Option Int32
  | none => some OS.invalidPointer
  | some cmd =>
      if cmd.memType ≠ ram ∧ cmd.memType ≠ eeprom then some CFS.errorInvalidMemtype
      else if cmd.numOfBytes = 0 then some CFS.errorInvalidSize
      else if cmd.numOfBytes > maxLoadFileData cmd.memType then some CFS.errorInvalidSize
      else do
        let fileName ← cmd.fileName.cstring?
        if fileName.length = 0 then some CFS.errorInvalidFile
        else if hasTraversal fileName then some CFS.errorInvalidFile
        else do
          let resolvedAddr ← resolveInline t cmd.destSymAddress
          if !CFS.isValidMemoryAddress resolvedAddr cmd.memType cmd.numOfBytes then
            some CFS.errorInvalidAddr
          else if resolvedAddr % t.memoryAlignment ≠ 0 then some CFS.errorAlignment
          else some CFE.success

/-- `LLVMFuzzerTestOneInput`: the return value, and the status the simulation
gave if it was run. -/
def fuzzerTestOneInput (t : CFS.Target) (e : ByteOrder) (block : Option LoadMemFromFileCmd)
    (data : List UInt8) : Option (Int32 × Option Int32) :=
  if data.length < sizeofLoadMemFromFileCmd then some (0, none)
  else do
    let packet ← loadConstructPacket t e block data
    match packet with
    | none => some (0, none)
    | some p => do
        let status ← loadMemFromFileCmdSimulation t (some p)
        some (0, some status)

/-! ## The standalone test -/

/-- `test_data` of the standalone `main`. -/
def testData : List UInt8 :=
  [0x01, 0x00, 0x10, 0x00, 0x00, 0x12, 0x34, 0x56, 0x78, 0x00, 0x02, 0x01]

/-- `modified_data` of its iteration `i`. -/
def modifiedData (i : Nat) : List UInt8 := testData.set 0 (UInt8.ofNat (i % 2 + 1))

/-- The standalone `main`: its exit code, where every `malloc` returns `block`. -/
def standaloneMain (t : CFS.Target) (e : ByteOrder) (block : Option LoadMemFromFileCmd) :
    Option Int32 := do
  let packet ← loadConstructPacket t e block testData
  match packet with
  | none => some 1
  | some p => do
      let _ ← loadMemFromFileCmdSimulation t (some p)
      let _ ← (List.range 10).mapM fun i => do
        let testPacket ← loadConstructPacket t e block (modifiedData i)
        match testPacket with
        | none => some none
        | some q => (loadMemFromFileCmdSimulation t (some q)).map some
      some 0

end MM
