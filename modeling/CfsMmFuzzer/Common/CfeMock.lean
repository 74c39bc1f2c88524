-- SUMMARY: The mocked cFE and OSAL interface: command headers with their setters, status codes, and the symbol lookup.
import CfsMmFuzzer.Base.CString

/-!
# The cFE mock (`cfe_mock.h`)

A setter is a function on the message it is pointed at. On a `NULL` message the
C setters do nothing.
-/

namespace CFE

/-- `CFE_SUCCESS`. -/
def success : Int32 := 0

/-- `CFE_MSG_CommandHeader_t`. -/
structure CommandHeader where
  streamId : UInt16
  sequence : UInt16
  length   : UInt16
  spare    : UInt16
  deriving DecidableEq, Repr

/-- `CFE_MSG_Message_t`. -/
structure Message where
  hdr : CommandHeader
  deriving DecidableEq, Repr

/-- `CFE_SB_MsgId_t`. -/
structure MsgId where
  value : UInt32
  deriving DecidableEq, Repr

/-- `CFE_SB_ValueToMsgId`. -/
def valueToMsgId (msgIdValue : UInt32) : MsgId := ⟨msgIdValue⟩

namespace Message

/-- A message of zeros. -/
def cleared : Message := ⟨⟨0, 0, 0, 0⟩⟩

/-- `CFE_MSG_SetMsgId`. -/
def setMsgId (m : Message) (msgId : MsgId) : Message :=
  ⟨{ m.hdr with streamId := msgId.value.toUInt16 }⟩

/-- `CFE_MSG_GetMsgId`. -/
def getMsgId (m : Message) : MsgId := ⟨m.hdr.streamId.toUInt32⟩

/-- `CFE_MSG_SetSequenceCount` stores the whole word, segmentation flag included. -/
def setSequenceCount (m : Message) (seqCnt : UInt16) : Message :=
  ⟨{ m.hdr with sequence := seqCnt }⟩

/-- `CFE_MSG_SetSegmentationFlag`. -/
def setSegmentationFlag (m : Message) (segFlag : UInt16) : Message :=
  ⟨{ m.hdr with sequence := (m.hdr.sequence &&& (0x3FFF : UInt16)) |||
    ((segFlag &&& (0x3 : UInt16)) <<< (14 : UInt16)) }⟩

/-- `CFE_MSG_SetSize`. -/
def setSize (m : Message) (size : UInt16) : Message :=
  ⟨{ m.hdr with length := size }⟩

/-- `CFE_MSG_SetFcnCode` ignores both arguments. -/
def setFcnCode (m : Message) (_fcnCode : UInt8) : Message := m

/-- `CFE_MSG_GetFcnCode` ignores the message. -/
def getFcnCode (_m : Message) : UInt8 := 0

end Message

end CFE

namespace OS

/-- `OS_MAX_PATH_LEN`. -/
def maxPathLen : Nat := 64

/-- `OS_MAX_API_NAME`. -/
def maxApiName : Nat := 20

/-- `OS_SUCCESS`. -/
def success : Int32 := 0

/-- `OS_INVALID_POINTER`. -/
def invalidPointer : Int32 := -2

/-- `OS_SymbolLookup`: the status, and the variable behind `SymbolAddress`. -/
def symbolLookup (symbolAddress : Option UInt64) (symbolName : Option CString) :
    Int32 × Option UInt64 :=
  match symbolAddress, symbolName with
  | some _, some name => (success, some (0x20000000 + UInt64.ofNat name.length * 0x1000))
  | addr, _ => (invalidPointer, addr)

end OS
