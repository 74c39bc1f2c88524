-- SUMMARY: The load harness once more, on a heap of bytes: every access goes through a pointer and a member offset.
import CfsMmFuzzer.Base.Heap
import CfsMmFuzzer.Harness.MmLoad

/-!
# The load harness in memory (`mm_load_harness.c`)

The functions of the harness with the packet where the C code has it: in a block
that `malloc` gives, with each member at its offset. The block is the only bound
on an access, so a scan or a copy may leave its member. `campaign` is what a
fuzzer does with the harness: one call after another in one process.
-/

namespace MM.InMemory

/-! ## Members -/

/-- `offsetof` of the members that the harness uses. -/
def streamId : Nat := 0
def sequence : Nat := 2
def length : Nat := 4
def memType : Nat := 8
def numOfBytes : Nat := 12
def crc : Nat := 16
def symName : Nat := 24
def offset : Nat := 48
def fileName : Nat := 56

def load8 (h : Heap) (p : Ptr) : Option UInt8 := do
  (← h.load p 1)[0]?

def load16 (e : ByteOrder) (h : Heap) (p : Ptr) : Option UInt16 := do
  some (UInt16.ofNat (e.value (← h.load p 2)))

def load32 (e : ByteOrder) (h : Heap) (p : Ptr) : Option UInt32 := do
  some (UInt32.ofNat (e.value (← h.load p 4)))

def load64 (e : ByteOrder) (h : Heap) (p : Ptr) : Option UInt64 := do
  some (UInt64.ofNat (e.value (← h.load p 8)))

def store8 (h : Heap) (p : Ptr) (v : UInt8) : Option Heap := h.store p [v]

def store16 (e : ByteOrder) (h : Heap) (p : Ptr) (v : UInt16) : Option Heap :=
  h.store p (e.bytes 2 v.toNat)

def store32 (e : ByteOrder) (h : Heap) (p : Ptr) (v : UInt32) : Option Heap :=
  h.store p (e.bytes 4 v.toNat)

def store64 (e : ByteOrder) (h : Heap) (p : Ptr) (v : UInt64) : Option Heap :=
  h.store p (e.bytes 8 v.toNat)

/-! ## Macros -/

/-- `CFS_SAFE_STRNCPY`. -/
def safeStrncpy (h : Heap) (dst : Ptr) (src : CString) (size : UInt64) : Option Heap :=
  if size > 0 then do
    let h ← h.strncpy dst src (size - 1).toNat
    store8 h (dst.add (size - 1).toNat) 0
  else some h

/-- `CFS_SAFE_STRNCAT`. -/
def safeStrncat (h : Heap) (dst : Ptr) (src : CString) (size : UInt64) : Option Heap :=
  if size > 0 then do
    let length ← h.strlen dst
    h.strncat dst src (size - UInt64.ofNat length - 1).toNat
  else some h

/-- `CFS_SAFE_MEMCPY` out of the input. -/
def safeMemcpy (h : Heap) (dst : Ptr) (data : List UInt8) (dataOffset size : Nat) :
    Option Heap :=
  if size > 0 then do
    let bytes ← ByteOrder.read data dataOffset size
    h.store dst bytes
  else some h

/-! ## Packet construction -/

/-- The heap, and the local `data_offset`. -/
structure DecodeState where
  heap       : Heap
  dataOffset : Nat

/-- The header section. `CFE_MSG_SetFcnCode` stores nothing. -/
def initHeader (e : ByteOrder) (packet : Ptr) (h : Heap) : Option Heap := do
  let h ← store16 e h (packet.add streamId) (CFE.valueToMsgId cmdMid).value.toUInt16
  let h ← store16 e h (packet.add length) (UInt16.ofNat sizeofLoadMemFromFileCmd)
  let h ← store16 e h (packet.add sequence) 0
  let seq ← load16 e h (packet.add sequence)
  store16 e h (packet.add sequence)
    ((seq &&& (0x3FFF : UInt16)) ||| ((0x3 &&& (0x3 : UInt16)) <<< (14 : UInt16)))

/-- The `MemType` section. -/
def decodeMemType (packet : Ptr) (data : List UInt8) (s : DecodeState) : Option DecodeState :=
  if s.dataOffset < data.length then do
    let byte ← data[s.dataOffset]?
    let h ← store8 s.heap (packet.add memType) (byte % 2 + 1)
    some ⟨h, s.dataOffset + 1⟩
  else do
    let h ← store8 s.heap (packet.add memType) ram
    some ⟨h, s.dataOffset⟩

/-- The `NumOfBytes` section. -/
def decodeNumOfBytes (e : ByteOrder) (packet : Ptr) (data : List UInt8) (s : DecodeState) :
    Option DecodeState := do
  let maxBytes := maxLoadFileData (← load8 s.heap (packet.add memType))
  if s.dataOffset + 4 ≤ data.length then do
    let h ← safeMemcpy s.heap (packet.add numOfBytes) data s.dataOffset 4
    let word ← load32 e h (packet.add numOfBytes)
    let h ← store32 e h (packet.add numOfBytes) (word % maxBytes + 1)
    some ⟨h, s.dataOffset + 4⟩
  else do
    let h ← store32 e s.heap (packet.add numOfBytes) 1024
    some ⟨h, s.dataOffset⟩

/-- The `CRC` section. -/
def decodeCrc (e : ByteOrder) (packet : Ptr) (data : List UInt8) (s : DecodeState) :
    Option DecodeState :=
  if s.dataOffset + 4 ≤ data.length then do
    let h ← safeMemcpy s.heap (packet.add crc) data s.dataOffset 4
    some ⟨h, s.dataOffset + 4⟩
  else do
    let h ← store32 e s.heap (packet.add crc) 0
    some ⟨h, s.dataOffset⟩

/-- The symbol branch of the destination section. -/
def decodeSymbol (e : ByteOrder) (packet : Ptr) (data : List UInt8) (s : DecodeState) :
    Option DecodeState :=
  if CFS.numValidSymbols > 0 ∧ s.dataOffset < data.length then do
    let byte ← data[s.dataOffset]?
    let symbol ← CFS.validSymbols[byte.toNat % CFS.numValidSymbols]?
    let h ← safeStrncpy s.heap (packet.add symName) symbol (UInt64.ofNat OS.maxApiName)
    let h ← store64 e h (packet.add offset) 0
    some ⟨h, s.dataOffset + 1⟩
  else some s

/-- The offset branch of the destination section. -/
def decodeOffset (t : CFS.Target) (e : ByteOrder) (packet : Ptr) (data : List UInt8)
    (s : DecodeState) : Option DecodeState := do
  let h ← store8 s.heap (packet.add symName) 0
  if s.dataOffset + 8 ≤ data.length then do
    let h ← safeMemcpy h (packet.add offset) data s.dataOffset 8
    let baseAddr := defaultAddr t (← load8 h (packet.add memType))
    let word ← load64 e h (packet.add offset)
    let h ← store64 e h (packet.add offset) (baseAddr + (word &&& 0x7FFFFFFF))
    some ⟨h, s.dataOffset + 8⟩
  else do
    let baseAddr := defaultAddr t (← load8 h (packet.add memType))
    let h ← store64 e h (packet.add offset) baseAddr
    some ⟨h, s.dataOffset⟩

/-- The destination section. -/
def decodeDest (t : CFS.Target) (e : ByteOrder) (packet : Ptr) (data : List UInt8)
    (s : DecodeState) : Option DecodeState :=
  if s.dataOffset < data.length then do
    let choiceByte ← data[s.dataOffset]?
    let s' := { s with dataOffset := s.dataOffset + 1 }
    if choiceByte % 2 = 0 then decodeSymbol e packet data s'
    else decodeOffset t e packet data s'
  else some s

/-- The file-name section. -/
def decodeFileName (packet : Ptr) (data : List UInt8) (s : DecodeState) : Option DecodeState :=
  let size := UInt64.ofNat OS.maxPathLen
  if s.dataOffset < data.length then do
    let byte ← data[s.dataOffset]?
    let path ← CFS.validPaths[byte.toNat % CFS.numValidPaths]?
    let h ← safeStrncpy s.heap (packet.add fileName) path size
    let currentLen ← h.strlen (packet.add fileName)
    let remaining := size - UInt64.ofNat currentLen - 1
    let h ← if remaining > UInt64.ofNat filenameSuffix.length then
      safeStrncat h (packet.add fileName) filenameSuffix size else some h
    some ⟨h, s.dataOffset + 1⟩
  else do
    let h ← safeStrncpy s.heap (packet.add fileName) defaultFilename size
    some ⟨h, s.dataOffset⟩

/-- `MM_Load_ConstructPacket` behind its `malloc`. -/
def fillPacket (t : CFS.Target) (e : ByteOrder) (packet : Ptr) (data : List UInt8) (h : Heap) :
    Option Heap := do
  let h ← h.memset packet 0 sizeofLoadMemFromFileCmd
  let h ← initHeader e packet h
  let s ← decodeMemType packet data ⟨h, 0⟩
  let s ← decodeNumOfBytes e packet data s
  let s ← decodeCrc e packet data s
  let s ← decodeDest t e packet data s
  let s ← decodeFileName packet data s
  some s.heap

/-- `MM_Load_ConstructPacket`. -/
def loadConstructPacket (t : CFS.Target) (e : ByteOrder) (a : Allocator) (data : List UInt8)
    (h : Heap) : Option (Heap × Option Ptr) :=
  if data.length < sizeofLoadMemFromFileCmd then some (h, none)
  else
    match h.malloc a sizeofLoadMemFromFileCmd with
    | (h, none) => some (h, none)
    | (h, some packet) => do
        let h ← fillPacket t e packet data h
        some (h, some packet)

/-! ## The simulated command -/

/-- The address resolution inlined in the simulation. -/
def resolveInline (t : CFS.Target) (e : ByteOrder) (cmd : Ptr) (h : Heap) : Option UInt64 := do
  let name ← h.string (cmd.add symName)
  let offs ← load64 e h (cmd.add offset)
  if name.length > 0 then
    some (t.defaultRamAddr + UInt64.ofNat name.length * 0x1000 + offs)
  else some offs

/-- `MM_LoadMemFromFileCmd_Simulation` of a command that is not `NULL`. -/
def loadMemFromFileCmdSimulation (t : CFS.Target) (e : ByteOrder) (cmd : Ptr) (h : Heap) :
    Option Int32 := do
  let type ← load8 h (cmd.add memType)
  let number ← load32 e h (cmd.add numOfBytes)
  if type ≠ ram ∧ type ≠ eeprom then some CFS.errorInvalidMemtype
  else if number = 0 then some CFS.errorInvalidSize
  else if number > maxLoadFileData type then some CFS.errorInvalidSize
  else do
    let name ← h.string (cmd.add fileName)
    if name.length = 0 then some CFS.errorInvalidFile
    else if hasTraversal name then some CFS.errorInvalidFile
    else do
      let resolvedAddr ← resolveInline t e cmd h
      if !CFS.isValidMemoryAddress resolvedAddr type number then some CFS.errorInvalidAddr
      else if resolvedAddr % t.memoryAlignment ≠ 0 then some CFS.errorAlignment
      else some CFE.success

/-! ## Iterations -/

/-- `LLVMFuzzerTestOneInput`: the heap behind it, the return value, and the status the simulation
gave if it was run. -/
def fuzzerTestOneInput (t : CFS.Target) (e : ByteOrder) (a : Allocator) (data : List UInt8)
    (h : Heap) : Option (Heap × Int32 × Option Int32) :=
  if data.length < sizeofLoadMemFromFileCmd then some (h, 0, none)
  else do
    let (h, packet) ← loadConstructPacket t e a data h
    match packet with
    | none => some (h, 0, none)
    | some p => do
        let status ← loadMemFromFileCmdSimulation t e p h
        let h ← h.free p
        some (h, 0, some status)

/-- A fuzzer's calls, one after another. What `malloc` does may differ from call to call. -/
def campaign (t : CFS.Target) (e : ByteOrder) :
    List (Allocator × List UInt8) → Heap → Option (Heap × List (Int32 × Option Int32))
  | [], h => some (h, [])
  | (a, data) :: calls, h => do
      let (h, result) ← fuzzerTestOneInput t e a data h
      let (h, results) ← campaign t e calls h
      some (h, result :: results)

end MM.InMemory
