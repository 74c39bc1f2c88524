-- SUMMARY: Runs of header setters: each field holds the last value set for it, and which setters commute.
import CfsMmFuzzer.Base.LastWrite
import CfsMmFuzzer.Harness.MmLoad

/-!
# Header setters

The sequence count and the segmentation flag share a word. The setter of the
flag keeps the count, the setter of the count stores the whole word, so a flag
lasts only where no count is set after it. The function code is not stored.
-/

namespace CFE

open LastWrite

/-! ## Calls -/

/-- A call of a setter. -/
inductive SetCall where
  | msgId (msgId : MsgId)
  | sequenceCount (seqCnt : UInt16)
  | segmentationFlag (segFlag : UInt16)
  | size (size : UInt16)
  | fcnCode (fcnCode : UInt8)
  deriving DecidableEq, Repr

namespace SetCall

/-- The value fits its field: 16 bits of id, 14 of count, 2 of flag. -/
def Fits : SetCall → Prop
  | .msgId v => v.value ≤ 0xFFFF
  | .sequenceCount v => v ≤ 0x3FFF
  | .segmentationFlag v => v ≤ 0x3
  | .size _ => True
  | .fcnCode _ => True

def msgId? : SetCall → Option MsgId
  | .msgId v => some v
  | _ => none

def sequenceCount? : SetCall → Option UInt16
  | .sequenceCount v => some v
  | _ => none

def segmentationFlag? : SetCall → Option UInt16
  | .segmentationFlag v => some v
  | _ => none

def size? : SetCall → Option UInt16
  | .size v => some v
  | _ => none

/-- The call stores the word of the sequence count. -/
def SetsCount (c : SetCall) : Prop := ∃ v, c = .sequenceCount v

end SetCall

/-- The fields that have a setter. -/
inductive Field where
  | msgId
  | sequenceCount
  | segmentationFlag
  | size
  | fcnCode
  deriving DecidableEq, Repr

def SetCall.field : SetCall → Field
  | .msgId _ => .msgId
  | .sequenceCount _ => .sequenceCount
  | .segmentationFlag _ => .segmentationFlag
  | .size _ => .size
  | .fcnCode _ => .fcnCode

namespace Message

/-- The low 14 bits of the sequence word. -/
def sequenceCount (m : Message) : UInt16 := m.hdr.sequence &&& 0x3FFF

/-- The high 2 bits of the sequence word. -/
def segmentationFlag (m : Message) : UInt16 := m.hdr.sequence >>> 14

def size (m : Message) : UInt16 := m.hdr.length

def apply (m : Message) : SetCall → Message
  | .msgId v => m.setMsgId v
  | .sequenceCount v => m.setSequenceCount v
  | .segmentationFlag v => m.setSegmentationFlag v
  | .size v => m.setSize v
  | .fcnCode v => m.setFcnCode v

/-- The message after a sequence of calls. -/
def run (m : Message) (calls : List SetCall) : Message := calls.foldl apply m

/-! ## One call -/

theorem toNat_sequenceCount (m : Message) :
    m.sequenceCount.toNat = m.hdr.sequence.toNat % 2 ^ 14 := by
  have hmask : (0x3FFF : UInt16).toNat = 2 ^ 14 - 1 := rfl
  rw [sequenceCount, UInt16.toNat_and, hmask, Nat.and_two_pow_sub_one_eq_mod]

theorem toNat_segmentationFlag (m : Message) :
    m.segmentationFlag.toNat = m.hdr.sequence.toNat / 2 ^ 14 := by
  have hshift : (14 : UInt16).toNat % 16 = 14 := rfl
  rw [segmentationFlag, UInt16.toNat_shiftRight, hshift, Nat.shiftRight_eq_div_pow]

/-- The setter of the flag puts it on top of the count. -/
theorem toNat_sequence_setSegmentationFlag (m : Message) (v : UInt16) :
    (m.setSegmentationFlag v).hdr.sequence.toNat =
      2 ^ 14 * (v.toNat % 2 ^ 2) + m.hdr.sequence.toNat % 2 ^ 14 := by
  have hcount : (0x3FFF : UInt16).toNat = 2 ^ 14 - 1 := rfl
  have hflag : (0x3 : UInt16).toNat = 2 ^ 2 - 1 := rfl
  have hshift : (14 : UInt16).toNat % 16 = 14 := rfl
  have hword : v.toNat % 2 ^ 2 * 2 ^ 14 % 2 ^ 16 = 2 ^ 14 * (v.toNat % 2 ^ 2) := by omega
  have hlow : m.hdr.sequence.toNat % 2 ^ 14 < 2 ^ 14 := Nat.mod_lt _ (by decide)
  unfold setSegmentationFlag
  rw [UInt16.toNat_or, UInt16.toNat_and, UInt16.toNat_shiftLeft, UInt16.toNat_and, hcount, hflag,
    hshift, Nat.and_two_pow_sub_one_eq_mod, Nat.and_two_pow_sub_one_eq_mod, Nat.shiftLeft_eq,
    hword, Nat.or_comm, ← Nat.two_pow_add_eq_or_of_lt hlow]

theorem getMsgId_setMsgId (m : Message) {v : MsgId} (h : v.value ≤ 0xFFFF) :
    (m.setMsgId v).getMsgId = v := by
  unfold setMsgId getMsgId
  congr 1
  apply UInt32.toNat_inj.mp
  rw [UInt16.toNat_toUInt32, UInt32.toNat_toUInt16]
  exact Nat.mod_eq_of_lt (Nat.lt_succ_of_le h)

theorem sequenceCount_setSequenceCount (m : Message) {v : UInt16} (h : v ≤ 0x3FFF) :
    (m.setSequenceCount v).sequenceCount = v := by
  apply UInt16.toNat_inj.mp
  rw [toNat_sequenceCount]
  exact Nat.mod_eq_of_lt (Nat.lt_succ_of_le h)

theorem sequenceCount_setSegmentationFlag (m : Message) (v : UInt16) :
    (m.setSegmentationFlag v).sequenceCount = m.sequenceCount := by
  apply UInt16.toNat_inj.mp
  rw [toNat_sequenceCount, toNat_sequenceCount, toNat_sequence_setSegmentationFlag]
  omega

theorem segmentationFlag_setSegmentationFlag (m : Message) {v : UInt16} (h : v ≤ 0x3) :
    (m.setSegmentationFlag v).segmentationFlag = v := by
  have hv : v.toNat ≤ 3 := h
  apply UInt16.toNat_inj.mp
  rw [toNat_segmentationFlag, toNat_sequence_setSegmentationFlag]
  omega

/-! ## Runs of calls -/

/-- Each field of `m'` holds the last value that `calls` set for it, or that of
`m`; the flag if each count is followed by a flag. There is no function code. -/
structure HoldsLast (m : Message) (calls : List SetCall) (m' : Message) : Prop where
  msgId : m'.getMsgId = lastSet SetCall.msgId? calls m.getMsgId
  sequenceCount : m'.sequenceCount = lastSet SetCall.sequenceCount? calls m.sequenceCount
  segmentationFlag : Kept SetCall.segmentationFlag? SetCall.SetsCount calls →
    m'.segmentationFlag = lastSet SetCall.segmentationFlag? calls m.segmentationFlag
  size : m'.size = lastSet SetCall.size? calls m.size
  spare : m'.hdr.spare = m.hdr.spare
  fcnCode : m'.getFcnCode = 0

section Run

variable {calls : List SetCall} (m : Message)

theorem getMsgId_run (hfits : ∀ c ∈ calls, c.Fits) :
    (m.run calls).getMsgId = lastSet SetCall.msgId? calls m.getMsgId := by
  refine get_foldl_of_frame ?_ ?_ m
  · intro m c hc v hv
    cases c with
    | msgId w => exact Option.some.inj hv ▸ m.getMsgId_setMsgId (hfits _ hc)
    | _ => cases hv
  · intro m c _ hnone
    cases c with
    | msgId _ => cases hnone
    | _ => rfl

theorem sequenceCount_run (hfits : ∀ c ∈ calls, c.Fits) :
    (m.run calls).sequenceCount = lastSet SetCall.sequenceCount? calls m.sequenceCount := by
  refine get_foldl_of_frame ?_ ?_ m
  · intro m c hc v hv
    cases c with
    | sequenceCount w =>
      exact Option.some.inj hv ▸ m.sequenceCount_setSequenceCount (hfits _ hc)
    | _ => cases hv
  · intro m c _ hnone
    cases c with
    | sequenceCount _ => cases hnone
    | segmentationFlag v => exact m.sequenceCount_setSegmentationFlag v
    | _ => rfl

theorem segmentationFlag_run (hfits : ∀ c ∈ calls, c.Fits)
    (hkept : Kept SetCall.segmentationFlag? SetCall.SetsCount calls) :
    (m.run calls).segmentationFlag =
      lastSet SetCall.segmentationFlag? calls m.segmentationFlag := by
  refine get_foldl hkept ?_ ?_ m
  · intro m c hc v hv
    cases c with
    | segmentationFlag w =>
      exact Option.some.inj hv ▸ m.segmentationFlag_setSegmentationFlag (hfits _ hc)
    | _ => cases hv
  · intro m c _ hnone hcount
    cases c with
    | sequenceCount v => exact absurd ⟨v, rfl⟩ hcount
    | segmentationFlag _ => cases hnone
    | _ => rfl

theorem size_run : (m.run calls).size = lastSet SetCall.size? calls m.size := by
  refine get_foldl_of_frame ?_ ?_ m
  · intro m c _ v hv
    cases c with
    | size w => exact Option.some.inj hv
    | _ => cases hv
  · intro m c _ hnone
    cases c with
    | size _ => cases hnone
    | _ => rfl

theorem spare_run : (m.run calls).hdr.spare = m.hdr.spare := by
  induction calls generalizing m with
  | nil => rfl
  | cons c calls ih =>
    have hone : (m.apply c).hdr.spare = m.hdr.spare := by cases c <;> rfl
    exact (ih (m.apply c)).trans hone

theorem run_holdsLast (hfits : ∀ c ∈ calls, c.Fits) : HoldsLast m calls (m.run calls) where
  msgId := m.getMsgId_run hfits
  sequenceCount := m.sequenceCount_run hfits
  segmentationFlag := m.segmentationFlag_run hfits
  size := m.size_run
  spare := m.spare_run
  fcnCode := rfl

end Run

end Message

/-! ## Commuting calls -/

/-- One of the calls sets the count, and the other the flag. -/
def SetCall.ShareWord (c d : SetCall) : Prop :=
  (c.field = .sequenceCount ∧ d.field = .segmentationFlag) ∨
  (c.field = .segmentationFlag ∧ d.field = .sequenceCount)

theorem Message.apply_comm {c d : SetCall} (hfield : c.field ≠ d.field)
    (hword : ¬ c.ShareWord d) (m : Message) : (m.apply c).apply d = (m.apply d).apply c := by
  cases c <;> cases d <;> first
    | exact absurd rfl hfield
    | exact absurd (.inl ⟨rfl, rfl⟩) hword
    | exact absurd (.inr ⟨rfl, rfl⟩) hword
    | rfl

/-- **Header fields under any order of setters.** -/
theorem Message.run_setters (m : Message) (calls : List SetCall) (hfits : ∀ c ∈ calls, c.Fits) :
    HoldsLast m calls (m.run calls) ∧
    (∀ fcnCode, (m.run calls).setFcnCode fcnCode = m.run calls) ∧
    (∀ c d : SetCall, c.field ≠ d.field → ¬ c.ShareWord d →
      (m.apply c).apply d = (m.apply d).apply c) :=
  ⟨m.run_holdsLast hfits, fun _ => rfl, fun _ _ hfield hword => m.apply_comm hfield hword⟩

/-- A code that is set reads back as zero, and a flag does not outlast a count. -/
theorem Message.run_setters_lost :
    (cleared.run [.fcnCode 5]).getFcnCode ≠ 5 ∧
      (cleared.run [.segmentationFlag 3, .sequenceCount 1]).segmentationFlag ≠ 3 :=
  ⟨by decide, by decide⟩

/-! ## The two callers -/

/-- The calls that both initialisers make. -/
def headerCalls (msgId : MsgId) (length : UInt16) (fcnCode : UInt8) : List SetCall :=
  [.msgId msgId, .size length, .sequenceCount 0, .segmentationFlag 0x3, .fcnCode fcnCode]

theorem headerCalls_fits {msgId : MsgId} (h : msgId.value ≤ 0xFFFF) (length : UInt16)
    (fcnCode : UInt8) : ∀ c ∈ headerCalls msgId length fcnCode, c.Fits := by
  simp only [headerCalls, List.forall_mem_cons, SetCall.Fits, h, true_and]
  exact ⟨by decide, by decide, fun _ hnil => absurd hnil List.not_mem_nil⟩

/-- The initialisers set the flag after the count. -/
theorem headerCalls_kept (msgId : MsgId) (length : UInt16) (fcnCode : UInt8) :
    Kept SetCall.segmentationFlag? SetCall.SetsCount (headerCalls msgId length fcnCode) := by
  have hsplit : headerCalls msgId length fcnCode =
      [.msgId msgId, .size length, .sequenceCount 0] ++
        .segmentationFlag 0x3 :: [.fcnCode fcnCode] := rfl
  rw [hsplit]
  refine kept_append_cons rfl ?_
  intro c hc hcount
  obtain ⟨v, rfl⟩ := hcount
  simp at hc

theorem initPacketHeader_eq_run (m : Message) (msgId : MsgId) (length : UInt16) (fcnCode : UInt8) :
    CFS.initPacketHeader m msgId length fcnCode =
      Message.cleared.run (headerCalls msgId length fcnCode) := rfl

theorem initHeader_eq_run (packet : MM.LoadMemFromFileCmd) :
    MM.initHeader packet = { packet with cmdHeader := ((⟨packet.cmdHeader⟩ : Message).run
      (headerCalls (valueToMsgId MM.cmdMid) (UInt16.ofNat MM.sizeofLoadMemFromFileCmd)
        MM.loadMemFromFileCc)).hdr } := rfl

/-- Both initialisers leave a complete header with count zero. -/
theorem Message.run_headerCalls (m : Message) {msgId : MsgId} (h : msgId.value ≤ 0xFFFF)
    (length : UInt16) (fcnCode : UInt8) :
    (m.run (headerCalls msgId length fcnCode)).getMsgId = msgId ∧
      (m.run (headerCalls msgId length fcnCode)).size = length ∧
      (m.run (headerCalls msgId length fcnCode)).sequenceCount = 0 ∧
      (m.run (headerCalls msgId length fcnCode)).segmentationFlag = 0x3 := by
  have hlast := m.run_holdsLast (headerCalls_fits h length fcnCode)
  exact ⟨hlast.msgId, hlast.size, hlast.sequenceCount,
    hlast.segmentationFlag (headerCalls_kept msgId length fcnCode)⟩

/-- The header of the load command. -/
theorem Message.run_setters_load :
    HoldsLast cleared (headerCalls ⟨0x1888⟩ 120 5) (cleared.run (headerCalls ⟨0x1888⟩ 120 5)) ∧
      (∀ fcnCode, (cleared.run (headerCalls ⟨0x1888⟩ 120 5)).setFcnCode fcnCode =
        cleared.run (headerCalls ⟨0x1888⟩ 120 5)) ∧
      (∀ c d : SetCall, c.field ≠ d.field → ¬ c.ShareWord d →
        (cleared.apply c).apply d = (cleared.apply d).apply c) :=
  cleared.run_setters _ (headerCalls_fits (by decide) 120 5)

end CFE
