-- SUMMARY: The common library: symbol resolution, file-name and alignment checks, CRC, packet headers, and the region validator.
import CfsMmFuzzer.Common.MmTypes

/-!
# Common utilities (`utils.c`)

A pointer that the C code tests against `NULL` is an `Option`. A function that
scans a character array has no result when the scan leaves the array.
-/

namespace MM

/-- `MM_ResolveSymAddr`: the status, and the variable behind `ResolvedAddr`. -/
def resolveSymAddr (symAddr : Option SymAddr) (resolvedAddr : Option UInt64) :
    Option (Int32 × Option UInt64) :=
  match symAddr, resolvedAddr with
  | some sa, some out => do
      let name ← sa.symName.cstring?
      if name.length > 0 then
        let (status, symbolAddr) := OS.symbolLookup (some 0) (some name)
        if status ≠ OS.success then some (status, some out)
        else some (CFE.success, symbolAddr.map (· + sa.offset))
      else some (CFE.success, some sa.offset)
  | _, out => some (OS.invalidPointer, out)

/-! ## File names -/

/-- The literal `"../"`. -/
def parentSlash : CString := ⟨CString.ascii "../", by decide⟩

/-- The literal `"..\\"`. -/
def parentBackslash : CString := ⟨CString.ascii "..\\", by decide⟩

/-- `strstr(FileName, "../") || strstr(FileName, "..\\")`. -/
def hasTraversal (fileName : CString) : Bool :=
  (fileName.strstr parentSlash).isSome || (fileName.strstr parentBackslash).isSome

/-- The loop over `cfs_valid_paths`. -/
def hasValidPath (fileName : CString) : Bool :=
  CFS.validPaths.any fun path => fileName.strncmp path path.length == 0

/-- `MM_VerifyFileName`. -/
def verifyFileName : Option CString → Int32
  | none => OS.invalidPointer
  | some fileName =>
      if fileName.length = 0 ∨ fileName.length ≥ OS.maxPathLen then CFS.errorInvalidFile
      else if hasTraversal fileName then CFS.errorInvalidFile
      else if hasValidPath fileName then CFE.success
      else CFS.errorInvalidFile

/-! ## Alignment -/

/-- `MM_IsValidAlignment`. -/
def isValidAlignment (addr : UInt64) (dataSize : UInt8) : Bool :=
  if dataSize = mem8 then addr % 1 == 0
  else if dataSize = mem16 then addr % 2 == 0
  else if dataSize = mem32 then addr % 4 == 0
  else false

/-! ## CRC -/

/-- The initialiser of `crc_table`. -/
def crcTableInit : List UInt32 :=
  [0x00000000, 0x77073096, 0xEE0E612C, 0x990951BA, 0x076DC419, 0x706AF48F,
   0xE963A535, 0x9E6495A3, 0x0EDB8832, 0x79DCB8A4, 0xE0D5E91E, 0x97D2D988,
   0x09B64C2B, 0x7EB17CBD, 0xE7B82D07, 0x90BF1D91]

/-- `crc_table[i]`: the entries without an initialiser are zero. -/
def crcTable (i : UInt32) : UInt32 := crcTableInit.getD i.toNat 0

/-- The body of the loop of `MM_CalculateCRC32`. -/
def crcStep (crc : UInt32) (byte : UInt8) : UInt32 :=
  crcTable ((crc ^^^ byte.toUInt32) &&& 0xFF) ^^^ (crc >>> 8)

/-- `MM_CalculateCRC32`. The length is that of the byte sequence. -/
def calculateCRC32 (data : Option (List UInt8)) (initialCrc : UInt32) : UInt32 :=
  match data with
  | none => initialCrc
  | some bytes =>
      if bytes.length = 0 then initialCrc else bytes.foldl crcStep initialCrc

/-- `MM_CalculateCRC`: the status, and the variable behind `crc`. -/
def calculateCRC (data : Option (List UInt8)) (crc : Option UInt32) : Int32 × Option UInt32 :=
  match data, crc with
  | some bytes, some _ => (CFE.success, some (calculateCRC32 (some bytes) 0xFFFFFFFF))
  | _, out => (OS.invalidPointer, out)

end MM

namespace CFS

/-! ## Packet headers -/

/-- `CFS_InitPacketHeader` on a message that is not `NULL`. -/
def initPacketHeader (_m : CFE.Message) (msgId : CFE.MsgId) (length : UInt16) (fcnCode : UInt8) :
    CFE.Message :=
  let m := CFE.Message.cleared
  let m := m.setMsgId msgId
  let m := m.setSize length
  let m := m.setSequenceCount 0
  let m := m.setSegmentationFlag 0x3
  m.setFcnCode fcnCode

/-! ## Memory regions -/

/-- `CFS_ValidateMemoryRegion`. The second loop stops at the first region that passes. -/
def validateMemoryRegion (addr : UInt64) (size : UInt32) (memType : UInt8)
    (writeAccess : Bool) : Int32 :=
  if !isValidMemoryAddress addr memType size then errorInvalidAddr
  else if writeAccess then
    match memoryRegions.find? (·.accepts addr memType size) with
    | some region => if !region.writable then errorPermission else CFE.success
    | none => CFE.success
  else CFE.success

end CFS
