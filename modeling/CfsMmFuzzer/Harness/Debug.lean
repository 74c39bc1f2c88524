-- SUMMARY: The load harness as a debug build: the same functions with the messages that they print.
import CfsMmFuzzer.Base.Print
import CfsMmFuzzer.Harness.MmLoad

/-!
# The debug build of the load harness (`mm_load_harness.c`)

With `CFS_DEBUG_MODE` the three print macros of the harness are calls of `printf`.
A function gives its result and the list of its messages, which are printed to
`stdout` with a line break behind each.
-/

namespace MM.Debug

open CString (ascii)
open Print (decimal hexLower)

/-! ## Messages -/

abbrev Message := List UInt8

/-- `CFS_DEBUG_PRINT`. -/
def debugPrint (text : List UInt8) : Message := ascii "[DEBUG] " ++ text

/-- `CFS_INFO_PRINT`. -/
def infoPrint (text : List UInt8) : Message := ascii "[INFO] " ++ text

/-- `CFS_ERROR_PRINT`. -/
def errorPrint (text : List UInt8) : Message := ascii "[ERROR] " ++ text

/-- What a `uint64_t` prints with `"0x%08lX"`. -/
def hex08 (addr : UInt64) : List UInt8 := ascii "0x" ++ Hex.numeral 8 addr.toNat

/-! ## Packet construction -/

/-- The message that closes `MM_Load_ConstructPacket`. -/
def constructed (p : LoadMemFromFileCmd) : Option Message := do
  let fileName ← p.fileName.cstring?
  some (debugPrint (ascii "Constructed packet: MemType=" ++ decimal p.memType.toNat ++
    ascii ", NumOfBytes=" ++ decimal p.numOfBytes.toNat ++ ascii ", File=" ++ fileName.chars))

/-- `MM_Load_ConstructPacket`. -/
def loadConstructPacket (t : CFS.Target) (e : ByteOrder) (block : Option LoadMemFromFileCmd)
    (data : List UInt8) : Option (Option LoadMemFromFileCmd × List Message) := do
  let packet ← MM.loadConstructPacket t e block data
  match packet with
  | none => some (none, [])
  | some p => do
      let message ← constructed p
      some (some p, [message])

/-! ## The simulated command -/

/-- The address resolution, with its message. -/
def resolveInline (t : CFS.Target) (dest : SymAddr) : Option (UInt64 × Message) := do
  let name ← dest.symName.cstring?
  if name.length > 0 then
    some (t.defaultRamAddr + UInt64.ofNat name.length * 0x1000 + dest.offset,
      debugPrint (ascii "Using symbol: " ++ name.chars ++ ascii " with offset: 0x" ++
        hexLower dest.offset.toNat))
  else
    some (dest.offset,
      debugPrint (ascii "Using direct address: 0x" ++ hexLower dest.offset.toNat))

def processing : Message := debugPrint (ascii "Processing MM Load command")

/-- `MM_LoadMemFromFileCmd_Simulation`. -/
def loadMemFromFileCmdSimulation (t : CFS.Target) :
    Option LoadMemFromFileCmd → Option (Int32 × List Message)
  | none => some (OS.invalidPointer, [errorPrint (ascii "Null command pointer")])
  | some cmd =>
      if cmd.memType ≠ ram ∧ cmd.memType ≠ eeprom then
        some (CFS.errorInvalidMemtype, [processing,
          errorPrint (ascii "Invalid memory type: " ++ decimal cmd.memType.toNat)])
      else if cmd.numOfBytes = 0 then
        some (CFS.errorInvalidSize, [processing,
          errorPrint (ascii "Invalid data size: " ++ decimal cmd.numOfBytes.toNat)])
      else if cmd.numOfBytes > maxLoadFileData cmd.memType then
        some (CFS.errorInvalidSize, [processing,
          errorPrint (ascii "Data size exceeds limit: " ++ decimal cmd.numOfBytes.toNat ++
            ascii " > " ++ decimal (maxLoadFileData cmd.memType).toNat)])
      else do
        let fileName ← cmd.fileName.cstring?
        if fileName.length = 0 then
          some (CFS.errorInvalidFile, [processing, errorPrint (ascii "Empty filename")])
        else if hasTraversal fileName then
          some (CFS.errorInvalidFile, [processing,
            errorPrint (ascii "Path traversal detected in filename: " ++ fileName.chars)])
        else do
          let (resolvedAddr, resolved) ← resolveInline t cmd.destSymAddress
          if !CFS.isValidMemoryAddress resolvedAddr cmd.memType cmd.numOfBytes then
            some (CFS.errorInvalidAddr, [processing, resolved,
              errorPrint (ascii "Invalid memory region: addr=" ++ hex08 resolvedAddr ++
                ascii ", size=" ++ decimal cmd.numOfBytes.toNat)])
          else if resolvedAddr % t.memoryAlignment ≠ 0 then
            some (CFS.errorAlignment, [processing, resolved,
              errorPrint (ascii "Address not properly aligned: " ++ hex08 resolvedAddr)])
          else
            some (CFE.success, [processing, resolved,
              infoPrint (ascii "MM Load simulation successful: " ++
                decimal cmd.numOfBytes.toNat ++ ascii " bytes from " ++ fileName.chars ++
                ascii " to " ++ hex08 resolvedAddr)])

/-! ## Iterations -/

/-- `LLVMFuzzerTestOneInput`. -/
def fuzzerTestOneInput (t : CFS.Target) (e : ByteOrder) (block : Option LoadMemFromFileCmd)
    (data : List UInt8) : Option ((Int32 × Option Int32) × List Message) :=
  if data.length < sizeofLoadMemFromFileCmd then some ((0, none), [])
  else do
    let (packet, messages) ← loadConstructPacket t e block data
    match packet with
    | none => some ((0, none), messages)
    | some p => do
        let (status, messages') ← loadMemFromFileCmdSimulation t (some p)
        some ((0, some status), messages ++ messages')

/-- A fuzzer's calls, one after another: the results, and all that is printed. -/
def campaign (t : CFS.Target) (e : ByteOrder) :
    List (Option LoadMemFromFileCmd × List UInt8) →
      Option (List (Int32 × Option Int32) × List Message)
  | [] => some ([], [])
  | (block, data) :: calls => do
      let (result, messages) ← fuzzerTestOneInput t e block data
      let (results, messages') ← campaign t e calls
      some (result :: results, messages ++ messages')

end MM.Debug
