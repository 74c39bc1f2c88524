-- SUMMARY: The harness in memory against the harness on records: one iteration, and a whole fuzzing process, leave the heap as it was.
import CfsMmFuzzer.Harness.InMemory
import CfsMmFuzzer.Load.Iteration
import CfsMmFuzzer.Load.Truncation

/-!
# The harness as a process

Each step of the harness in memory does to the block of the packet what the same
step on records does to the record. So no access leaves the packet, no scan or
copy leaves its member, and the block is freed at the end of the call: after any
number of calls the heap is what it was.
-/

namespace MM.InMemory

open Heap (record fieldOffset overwrite overwrite_all)

/-! ## A packet in a block -/

/-- The heap where block `b` holds a packet. -/
def withPacket (h : Heap) (e : ByteOrder) (b : Nat) (p : LoadMemFromFileCmd) : Heap :=
  h.record b (p.fields e)

section Members

variable {h : Heap} {e : ByteOrder} {b i k n : Nat} {p p' : LoadMemFromFileCmd}
  {f f' bytes : List UInt8} {a a' : CharArray n} {src s : CString}

/-- Writing inside a member. -/
theorem store_member (hf : (p.fields e)[i]? = some f) (ho : overwrite f k bytes = some f')
    (hp' : (p.fields e).set i f' = p'.fields e) :
    (withPacket h e b p).store ⟨b, fieldOffset LoadMemFromFileCmd.fieldSizes i + k⟩ bytes =
      some (withPacket h e b p') := by
  rw [withPacket, ← LoadMemFromFileCmd.map_length_fields e p, Heap.store_record hf ho, hp']
  rfl

/-- Writing all of a member. -/
theorem store_whole (hf : (p.fields e)[i]? = some f) (hlen : bytes.length = f.length)
    (hp' : (p.fields e).set i bytes = p'.fields e) :
    (withPacket h e b p).store ⟨b, fieldOffset LoadMemFromFileCmd.fieldSizes i⟩ bytes =
      some (withPacket h e b p') :=
  store_member (k := 0) hf (overwrite_all hlen) hp'

theorem load_member (hf : (p.fields e)[i]? = some f) :
    (withPacket h e b p).load ⟨b, fieldOffset LoadMemFromFileCmd.fieldSizes i⟩ f.length =
      some f := by
  rw [withPacket, ← LoadMemFromFileCmd.map_length_fields e p, Heap.load_record hf]

theorem string_member (hf : (p.fields e)[i]? = some a.bytes) (hs : a.cstring? = some s) :
    (withPacket h e b p).string ⟨b, fieldOffset LoadMemFromFileCmd.fieldSizes i⟩ = some s := by
  rw [withPacket, ← LoadMemFromFileCmd.map_length_fields e p, Heap.string_record hf hs]

end Members

/-! ## Single members -/

section Accesses

variable {h : Heap} {e : ByteOrder} {b : Nat} {p : LoadMemFromFileCmd} {bytes : List UInt8}

theorem store_memType (v : UInt8) : store8 (withPacket h e b p) (Ptr.add ⟨b, 0⟩ memType) v =
    some (withPacket h e b { p with memType := v }) := store_whole (i := 4) rfl rfl rfl

theorem store_numOfBytes (v : UInt32) :
    store32 e (withPacket h e b p) (Ptr.add ⟨b, 0⟩ numOfBytes) v =
      some (withPacket h e b { p with numOfBytes := v }) :=
  store_whole (i := 6) rfl (by simp) rfl

theorem store_crc (v : UInt32) : store32 e (withPacket h e b p) (Ptr.add ⟨b, 0⟩ crc) v =
    some (withPacket h e b { p with crc := v }) :=
  store_whole (i := 7) rfl (by simp) rfl

theorem store_offset (v : UInt64) : store64 e (withPacket h e b p) (Ptr.add ⟨b, 0⟩ offset) v =
    some (withPacket h e b { p with destSymAddress.offset := v }) :=
  store_whole (i := 11) rfl (by simp) rfl

theorem store_streamId (v : UInt16) :
    store16 e (withPacket h e b p) (Ptr.add ⟨b, 0⟩ streamId) v =
      some (withPacket h e b { p with cmdHeader.streamId := v }) :=
  store_whole (i := 0) rfl (by simp) rfl

theorem store_sequence (v : UInt16) :
    store16 e (withPacket h e b p) (Ptr.add ⟨b, 0⟩ sequence) v =
      some (withPacket h e b { p with cmdHeader.sequence := v }) :=
  store_whole (i := 1) rfl (by simp) rfl

theorem store_length (v : UInt16) :
    store16 e (withPacket h e b p) (Ptr.add ⟨b, 0⟩ length) v =
      some (withPacket h e b { p with cmdHeader.length := v }) :=
  store_whole (i := 2) rfl (by simp) rfl

theorem load_sequence :
    load16 e (withPacket h e b p) (Ptr.add ⟨b, 0⟩ sequence) = some p.cmdHeader.sequence := by
  have hload : (withPacket h e b p).load (Ptr.add ⟨b, 0⟩ sequence)
      (e.bytes 2 p.cmdHeader.sequence.toNat).length = some (e.bytes 2 p.cmdHeader.sequence.toNat) :=
    load_member (i := 1) rfl
  rw [ByteOrder.length_bytes] at hload
  have hlt : p.cmdHeader.sequence.toNat < 256 ^ 2 := p.cmdHeader.sequence.toNat_lt
  simp only [load16, hload, Option.bind_eq_bind, Option.bind_some, ByteOrder.value_bytes,
    Nat.mod_eq_of_lt hlt, UInt16.ofNat_toNat]

theorem load_memType : load8 (withPacket h e b p) (Ptr.add ⟨b, 0⟩ memType) = some p.memType := by
  have hload : (withPacket h e b p).load (Ptr.add ⟨b, 0⟩ memType) 1 = some [p.memType] :=
    load_member (i := 4) rfl
  rw [load8, hload]
  rfl

theorem load_numOfBytes :
    load32 e (withPacket h e b p) (Ptr.add ⟨b, 0⟩ numOfBytes) = some p.numOfBytes := by
  have hload : (withPacket h e b p).load (Ptr.add ⟨b, 0⟩ numOfBytes)
      (e.bytes 4 p.numOfBytes.toNat).length = some (e.bytes 4 p.numOfBytes.toNat) :=
    load_member (i := 6) rfl
  rw [ByteOrder.length_bytes] at hload
  have hlt : p.numOfBytes.toNat < 256 ^ 4 := p.numOfBytes.toNat_lt
  simp only [load32, hload, Option.bind_eq_bind, Option.bind_some, ByteOrder.value_bytes,
    Nat.mod_eq_of_lt hlt, UInt32.ofNat_toNat]

theorem load_offset :
    load64 e (withPacket h e b p) (Ptr.add ⟨b, 0⟩ offset) = some p.destSymAddress.offset := by
  have hload : (withPacket h e b p).load (Ptr.add ⟨b, 0⟩ offset)
      (e.bytes 8 p.destSymAddress.offset.toNat).length =
        some (e.bytes 8 p.destSymAddress.offset.toNat) :=
    load_member (i := 11) rfl
  rw [ByteOrder.length_bytes] at hload
  have hlt : p.destSymAddress.offset.toNat < 256 ^ 8 := p.destSymAddress.offset.toNat_lt
  simp only [load64, hload, Option.bind_eq_bind, Option.bind_some, ByteOrder.value_bytes,
    Nat.mod_eq_of_lt hlt, UInt64.ofNat_toNat]

/-- A copy of four bytes of the input is a store of their word. -/
theorem safeMemcpy_word32 {dst : Ptr} {data : List UInt8} {i : Nat} (hle : i + 4 ≤ data.length) :
    safeMemcpy h dst data i 4 = store32 e h dst (ByteOrder.word32 e data i) := by
  have hlen : (ByteOrder.slice data i 4).length = 4 := by simp [ByteOrder.slice]; omega
  simp only [safeMemcpy, if_pos (show 4 > 0 by decide), ByteOrder.read_of_le hle,
    Option.bind_eq_bind, Option.bind_some, store32, ByteOrder.word32,
    ByteOrder.bytes_uint32_value hlen]

theorem safeMemcpy_word64 {dst : Ptr} {data : List UInt8} {i : Nat} (hle : i + 8 ≤ data.length) :
    safeMemcpy h dst data i 8 = store64 e h dst (ByteOrder.word64 e data i) := by
  have hlen : (ByteOrder.slice data i 8).length = 8 := by simp [ByteOrder.slice]; omega
  simp only [safeMemcpy, if_pos (show 8 > 0 by decide), ByteOrder.read_of_le hle,
    Option.bind_eq_bind, Option.bind_some, store64, ByteOrder.word64,
    ByteOrder.bytes_uint64_value hlen]

end Accesses

/-! ## Strings in members -/

section Strings

variable {h : Heap} {e : ByteOrder} {b i n : Nat} {member : CharArray n → LoadMemFromFileCmd}
  {a a' : CharArray n} {src : CString} {size : UInt64}

/-- Field `i` of the packet is the array that `member` puts into it. -/
def IsMember (e : ByteOrder) (i : Nat) (member : CharArray n → LoadMemFromFileCmd) : Prop :=
  ∀ a, ((member a).fields e)[i]? = some a.bytes ∧
    ∀ a', ((member a).fields e).set i a'.bytes = (member a').fields e

theorem strncpy_member (hi : IsMember e i member) {k : Nat} (ha : a.strncpy src k = some a') :
    (withPacket h e b (member a)).strncpy ⟨b, fieldOffset LoadMemFromFileCmd.fieldSizes i⟩ src k =
      some (withPacket h e b (member a')) := by
  rw [withPacket, ← LoadMemFromFileCmd.map_length_fields e (member a),
    Heap.strncpy_record (hi a).1 ha, (hi a).2]
  rfl

theorem strncat_member (hi : IsMember e i member) {s : CString} {k : Nat}
    (hs : a.cstring? = some s) (ha : a.strncat src k = some a') :
    (withPacket h e b (member a)).strncat ⟨b, fieldOffset LoadMemFromFileCmd.fieldSizes i⟩ src k =
      some (withPacket h e b (member a')) := by
  rw [withPacket, ← LoadMemFromFileCmd.map_length_fields e (member a),
    Heap.strncat_record (hi a).1 hs ha, (hi a).2]
  rfl

theorem strlen_member (hi : IsMember e i member) {s : CString} (hs : a.cstring? = some s) :
    (withPacket h e b (member a)).strlen ⟨b, fieldOffset LoadMemFromFileCmd.fieldSizes i⟩ =
      some s.length := by
  rw [Heap.strlen, string_member (hi a).1 hs]
  rfl

/-- `CFS_SAFE_STRNCPY` into a member. -/
theorem safeStrncpy_member (hi : IsMember e i member)
    (ha : CFS.safeStrncpy a src size = some a') :
    safeStrncpy (withPacket h e b (member a)) ⟨b, fieldOffset LoadMemFromFileCmd.fieldSizes i⟩
      src size = some (withPacket h e b (member a')) := by
  unfold CFS.safeStrncpy at ha
  unfold safeStrncpy
  split at ha
  case isTrue hpos =>
    obtain ⟨copied, hcopy, hset⟩ := Option.bind_eq_some_iff.mp ha
    rw [if_pos hpos, strncpy_member hi hcopy]
    exact store_member (hi copied).1 (Heap.overwrite_set hset) ((hi copied).2 a')
  case isFalse hpos =>
    obtain rfl := Option.some.inj ha
    exact if_neg hpos

/-- `CFS_SAFE_STRNCAT` into a member. -/
theorem safeStrncat_member (hi : IsMember e i member)
    (ha : CFS.safeStrncat a src size = some a') :
    safeStrncat (withPacket h e b (member a)) ⟨b, fieldOffset LoadMemFromFileCmd.fieldSizes i⟩
      src size = some (withPacket h e b (member a')) := by
  unfold CFS.safeStrncat at ha
  unfold safeStrncat
  split at ha
  case isTrue hpos =>
    obtain ⟨s, hs, hcat⟩ := Option.bind_eq_some_iff.mp ha
    rw [if_pos hpos, strlen_member hi hs]
    exact strncat_member hi hs hcat
  case isFalse hpos =>
    obtain rfl := Option.some.inj ha
    exact if_neg hpos

theorem isMember_symName (p : LoadMemFromFileCmd) :
    IsMember e 9 fun a => { p with destSymAddress.symName := a } := fun _ => ⟨rfl, fun _ => rfl⟩

theorem isMember_fileName (p : LoadMemFromFileCmd) :
    IsMember e 12 fun a => { p with fileName := a } := fun _ => ⟨rfl, fun _ => rfl⟩

end Strings

/-! ## The sections of the constructor -/

section Sections

variable {h : Heap} {t : CFS.Target} {e : ByteOrder} {b : Nat} {data : List UInt8}

/-- The state with the packet in a block. -/
def inBlock (h : Heap) (e : ByteOrder) (b : Nat) (s : MM.DecodeState) : DecodeState :=
  ⟨withPacket h e b s.packet, s.dataOffset⟩

theorem decodeMemType_inBlock (s : MM.DecodeState) :
    decodeMemType ⟨b, 0⟩ data (inBlock h e b s) =
      (MM.decodeMemType data s).map (inBlock h e b) := by
  unfold decodeMemType MM.decodeMemType
  simp only [inBlock, store_memType]
  split
  · cases data[s.dataOffset]? <;> rfl
  · rfl

theorem decodeNumOfBytes_inBlock (s : MM.DecodeState) :
    decodeNumOfBytes e ⟨b, 0⟩ data (inBlock h e b s) =
      (MM.decodeNumOfBytes e data s).map (inBlock h e b) := by
  by_cases hle : s.dataOffset + 4 ≤ data.length
  · rw [MM.decodeNumOfBytes_eq hle]
    simp only [decodeNumOfBytes, inBlock, load_memType, Option.bind_eq_bind, Option.bind_some,
      if_pos hle, safeMemcpy_word32 (e := e) hle, store_numOfBytes, load_numOfBytes]
    rfl
  · rw [MM.decodeNumOfBytes, if_neg hle]
    simp only [decodeNumOfBytes, inBlock, load_memType, Option.bind_eq_bind, Option.bind_some,
      if_neg hle, store_numOfBytes]
    rfl

theorem decodeCrc_inBlock (s : MM.DecodeState) :
    decodeCrc e ⟨b, 0⟩ data (inBlock h e b s) = (MM.decodeCrc e data s).map (inBlock h e b) := by
  by_cases hle : s.dataOffset + 4 ≤ data.length
  · rw [MM.decodeCrc_eq hle]
    simp only [decodeCrc, inBlock, if_pos hle, safeMemcpy_word32 (e := e) hle, store_crc]
    rfl
  · rw [MM.decodeCrc, if_neg hle]
    simp only [decodeCrc, inBlock, if_neg hle, store_crc]
    rfl

theorem safeStrncpy_symName (p : LoadMemFromFileCmd) (symbol : CString) :
    let copied := CharArray.pad OS.maxApiName (symbol.take (OS.maxApiName - 1))
    CFS.safeStrncpy p.destSymAddress.symName symbol (UInt64.ofNat OS.maxApiName) = some copied ∧
      safeStrncpy (withPacket h e b p) (Ptr.add ⟨b, 0⟩ symName) symbol
        (UInt64.ofNat OS.maxApiName) =
          some (withPacket h e b { p with destSymAddress.symName := copied }) := by
  have hsize : (UInt64.ofNat OS.maxApiName).toNat = OS.maxApiName := rfl
  have ha := CFS.safeStrncpy_eq p.destSymAddress.symName symbol hsize (by decide)
  have hheap := safeStrncpy_member (h := h) (e := e) (b := b) (isMember_symName p) ha
  exact ⟨ha, hheap⟩

theorem decodeSymbol_inBlock (s : MM.DecodeState) :
    decodeSymbol e ⟨b, 0⟩ data (inBlock h e b s) =
      (MM.decodeSymbol data s).map (inBlock h e b) := by
  unfold decodeSymbol MM.decodeSymbol
  by_cases hlt : CFS.numValidSymbols > 0 ∧ s.dataOffset < data.length
  case neg =>
    rw [if_neg hlt, if_neg (by exact hlt)]
    rfl
  rw [if_pos hlt, if_pos (by exact hlt)]
  simp only [inBlock, Option.bind_eq_bind]
  cases data[s.dataOffset]? with
  | none => rfl
  | some byte =>
    simp only [Option.bind_some]
    cases CFS.validSymbols[byte.toNat % CFS.numValidSymbols]? with
    | none => rfl
    | some symbol =>
      obtain ⟨hrecord, hheap⟩ := safeStrncpy_symName (h := h) (e := e) (b := b) s.packet symbol
      simp only [Option.bind_some, hrecord, hheap, store_offset]
      rfl

theorem decodeOffset_inBlock (s : MM.DecodeState) :
    decodeOffset t e ⟨b, 0⟩ data (inBlock h e b s) =
      (MM.decodeOffset t e data s).map (inBlock h e b) := by
  obtain ⟨cleared, hset⟩ : ∃ cleared, s.packet.destSymAddress.symName.set 0 0 = some cleared :=
    ⟨_, if_pos (by decide)⟩
  have hclear : store8 (withPacket h e b s.packet) (Ptr.add ⟨b, 0⟩ symName) 0 =
      some (withPacket h e b { s.packet with destSymAddress.symName := cleared }) :=
    store_member (i := 9) (k := 0) rfl (Heap.overwrite_set hset) rfl
  unfold decodeOffset MM.decodeOffset
  simp only [inBlock, Option.bind_eq_bind, hset, hclear, Option.bind_some]
  by_cases hle : s.dataOffset + 8 ≤ data.length
  · have hread := ByteOrder.read_of_le hle
    simp only [if_pos hle, safeMemcpy_word64 (e := e) hle, store_offset, Option.bind_some,
      load_memType, load_offset, CFS.safeMemcpy, hread, if_pos (show 8 > 0 by decide)]
    rfl
  · simp only [if_neg hle, load_memType, Option.bind_some, store_offset]
    rfl

theorem decodeDest_inBlock (s : MM.DecodeState) :
    decodeDest t e ⟨b, 0⟩ data (inBlock h e b s) =
      (MM.decodeDest t e data s).map (inBlock h e b) := by
  unfold decodeDest MM.decodeDest
  by_cases hlt : s.dataOffset < data.length
  case neg =>
    rw [if_neg hlt, if_neg (by exact hlt)]
    rfl
  rw [if_pos hlt, if_pos (by exact hlt)]
  simp only [Option.bind_eq_bind]
  have hat : (inBlock h e b s).dataOffset = s.dataOffset := rfl
  rw [hat]
  cases data[s.dataOffset]? with
  | none => rfl
  | some byte =>
    simp only [Option.bind_some]
    split
    · exact decodeSymbol_inBlock { s with dataOffset := s.dataOffset + 1 }
    · exact decodeOffset_inBlock { s with dataOffset := s.dataOffset + 1 }

section FileName

variable (p : LoadMemFromFileCmd) {name : CString}

theorem safeStrncpy_fileName (src : CString) :
    let copied := CharArray.pad OS.maxPathLen (src.take (OS.maxPathLen - 1))
    CFS.safeStrncpy p.fileName src (UInt64.ofNat OS.maxPathLen) = some copied ∧
      safeStrncpy (withPacket h e b p) (Ptr.add ⟨b, 0⟩ fileName) src (UInt64.ofNat OS.maxPathLen) =
        some (withPacket h e b { p with fileName := copied }) := by
  have hsize : (UInt64.ofNat OS.maxPathLen).toNat = OS.maxPathLen := rfl
  have ha := CFS.safeStrncpy_eq p.fileName src hsize (by decide)
  have hheap := safeStrncpy_member (h := h) (e := e) (b := b) (isMember_fileName p) ha
  exact ⟨ha, hheap⟩

theorem safeStrncat_fileName (hname : name.length < OS.maxPathLen) (src : CString) :
    let appended := CharArray.pad OS.maxPathLen
      (name.append (src.take (OS.maxPathLen - name.length - 1)))
    CFS.safeStrncat (.pad OS.maxPathLen name) src (UInt64.ofNat OS.maxPathLen) = some appended ∧
      safeStrncat (withPacket h e b { p with fileName := .pad OS.maxPathLen name })
        (Ptr.add ⟨b, 0⟩ fileName) src (UInt64.ofNat OS.maxPathLen) =
          some (withPacket h e b { p with fileName := appended }) := by
  have hsize : (UInt64.ofNat OS.maxPathLen).toNat = OS.maxPathLen := rfl
  have ha := CFS.safeStrncat_pad src hsize hname
  have hheap := safeStrncat_member (h := h) (e := e) (b := b) (isMember_fileName p) ha
  exact ⟨ha, hheap⟩

theorem strlen_fileName (hname : name.length < OS.maxPathLen) :
    (withPacket h e b { p with fileName := .pad OS.maxPathLen name }).strlen
      (Ptr.add ⟨b, 0⟩ fileName) = some name.length :=
  strlen_member (isMember_fileName p) (CharArray.cstring?_pad hname)

end FileName

theorem decodeFileName_inBlock (s : MM.DecodeState) :
    decodeFileName ⟨b, 0⟩ data (inBlock h e b s) =
      (MM.decodeFileName data s).map (inBlock h e b) := by
  have hcut : ∀ path : CString, (path.take (OS.maxPathLen - 1)).length < OS.maxPathLen :=
    fun path => CFS.length_take_lt path (by decide)
  unfold decodeFileName MM.decodeFileName
  by_cases hlt : s.dataOffset < data.length
  case neg =>
    obtain ⟨hrecord, hheap⟩ := safeStrncpy_fileName (h := h) (e := e) (b := b) s.packet
      defaultFilename
    rw [if_neg hlt, if_neg (by exact hlt)]
    simp only [inBlock, Option.bind_eq_bind, hrecord, hheap, Option.bind_some]
    rfl
  rw [if_pos hlt, if_pos (by exact hlt)]
  simp only [inBlock, Option.bind_eq_bind]
  cases data[s.dataOffset]? with
  | none => rfl
  | some byte =>
    simp only [Option.bind_some]
    cases CFS.validPaths[byte.toNat % CFS.numValidPaths]? with
    | none => rfl
    | some path =>
      obtain ⟨hrecord, hheap⟩ := safeStrncpy_fileName (h := h) (e := e) (b := b) s.packet path
      obtain ⟨hrecord', hheap'⟩ := safeStrncat_fileName (h := h) (e := e) (b := b) s.packet
        (hcut path) filenameSuffix
      simp only [Option.bind_some, MM.composeFileName, Option.bind_eq_bind, hrecord, hheap,
        strlen_fileName _ (hcut path), CharArray.cstring?_pad (hcut path)]
      split
      · simp only [hrecord', hheap', Option.bind_some]
        rfl
      · rfl

theorem initHeader_withPacket (p : LoadMemFromFileCmd) :
    initHeader e ⟨b, 0⟩ (withPacket h e b p) = some (withPacket h e b (MM.initHeader p)) := by
  unfold initHeader
  simp only [Option.bind_eq_bind, store_streamId, store_length, store_sequence, load_sequence,
    Option.bind_some]
  rfl

/-- A block of packet size, cleared. -/
theorem memset_withPacket {block : List UInt8} (hblock : block.length = sizeofLoadMemFromFileCmd) :
    (h.update b (some block)).memset ⟨b, 0⟩ 0 sizeofLoadMemFromFileCmd =
      some (withPacket h e b .cleared) := by
  have hcleared : List.replicate sizeofLoadMemFromFileCmd 0 =
      LoadMemFromFileCmd.cleared.toBytes e := by
    cases e <;> decide
  rw [Heap.memset, Heap.store_update, overwrite_all (by simp [hblock]), hcleared]
  rfl

/-- Steps that agree, one after the other. -/
theorem bind_inBlock {f : MM.DecodeState → Option MM.DecodeState}
    {g : DecodeState → Option DecodeState}
    (hfg : ∀ s, g (inBlock h e b s) = (f s).map (inBlock h e b)) (o : Option MM.DecodeState) :
    (o.map (inBlock h e b)).bind g = (o.bind f).map (inBlock h e b) := by
  cases o with
  | none => rfl
  | some s => exact hfg s

/-- The constructor behind its `malloc`. -/
theorem fillPacket_eq {block : List UInt8} (hblock : block.length = sizeofLoadMemFromFileCmd) :
    fillPacket t e ⟨b, 0⟩ data (h.update b (some block)) =
      (decodeSections t e data).map fun s => withPacket h e b s.packet := by
  have hstart : (⟨withPacket h e b (MM.initHeader .cleared), 0⟩ : DecodeState) =
      inBlock h e b ⟨MM.initHeader .cleared, 0⟩ := rfl
  unfold fillPacket decodeSections
  simp only [Option.bind_eq_bind, memset_withPacket (e := e) hblock, Option.bind_some,
    initHeader_withPacket, hstart]
  simp only [← Option.bind_assoc]
  rw [decodeMemType_inBlock, bind_inBlock decodeNumOfBytes_inBlock, bind_inBlock decodeCrc_inBlock,
    bind_inBlock decodeDest_inBlock, bind_inBlock decodeFileName_inBlock]
  have hheap : ∀ o : Option MM.DecodeState,
      (o.map (inBlock h e b)).bind (fun s => some s.heap) =
        o.map fun s => withPacket h e b s.packet := by
    intro o
    cases o <;> rfl
  exact hheap _

end Sections

/-! ## The simulated command -/

section Simulation

variable {h : Heap} {t : CFS.Target} {e : ByteOrder} {b : Nat} {p : LoadMemFromFileCmd}

theorem resolveInline_withPacket {addr : UInt64}
    (haddr : MM.resolveInline t p.destSymAddress = some addr) :
    resolveInline t e ⟨b, 0⟩ (withPacket h e b p) = some addr := by
  obtain ⟨name, hname, hresolve⟩ := Option.bind_eq_some_iff.mp haddr
  have hstring : (withPacket h e b p).string (Ptr.add ⟨b, 0⟩ symName) = some name :=
    string_member (i := 9) rfl hname
  unfold resolveInline
  simp only [Option.bind_eq_bind, hstring, load_offset, Option.bind_some]
  exact hresolve

/-- Where the scans end inside their members, the simulation in memory is that on records. -/
theorem loadMemFromFileCmdSimulation_withPacket {status : Int32}
    (hsim : MM.loadMemFromFileCmdSimulation t (some p) = some status) :
    loadMemFromFileCmdSimulation t e ⟨b, 0⟩ (withPacket h e b p) = some status := by
  unfold loadMemFromFileCmdSimulation
  simp only [MM.loadMemFromFileCmdSimulation] at hsim
  simp only [Option.bind_eq_bind, load_memType, load_numOfBytes, Option.bind_some] at hsim ⊢
  by_cases htype : p.memType ≠ ram ∧ p.memType ≠ eeprom
  · rwa [if_pos htype] at hsim ⊢
  rw [if_neg htype] at hsim ⊢
  by_cases hzero : p.numOfBytes = 0
  · rwa [if_pos hzero] at hsim ⊢
  rw [if_neg hzero] at hsim ⊢
  by_cases hlimit : p.numOfBytes > maxLoadFileData p.memType
  · rwa [if_pos hlimit] at hsim ⊢
  rw [if_neg hlimit] at hsim ⊢
  obtain ⟨name, hname, hrest⟩ := Option.bind_eq_some_iff.mp hsim
  have hstring : (withPacket h e b p).string (Ptr.add ⟨b, 0⟩ fileName) = some name :=
    string_member (i := 12) rfl hname
  rw [hstring, Option.bind_some]
  by_cases hempty : name.length = 0
  · rwa [if_pos hempty] at hrest ⊢
  rw [if_neg hempty] at hrest ⊢
  by_cases htraversal : hasTraversal name = true
  · rwa [if_pos htraversal] at hrest ⊢
  rw [if_neg htraversal] at hrest ⊢
  obtain ⟨addr, haddr, hverdict⟩ := Option.bind_eq_some_iff.mp hrest
  rw [resolveInline_withPacket haddr]
  exact hverdict

end Simulation

/-! ## Calls -/

/-- The constructor of an input of packet length leaves the packet of its command. -/
theorem fillPacket_of_le {t : CFS.Target} {e : ByteOrder} {data block : List UInt8} (h : Heap)
    (b : Nat) (hblock : block.length = sizeofLoadMemFromFileCmd)
    (hdata : sizeofLoadMemFromFileCmd ≤ data.length) :
    fillPacket t e ⟨b, 0⟩ data (h.update b (some block)) =
      some (withPacket h e b ((Command.ofInput e data).toPacket t)) := by
  have hpacket := loadConstructPacket_eq t e .cleared hdata
  rw [loadConstructPacket_eq_guard, if_neg (Nat.not_lt.mpr hdata)] at hpacket
  obtain ⟨s, hs, hresult⟩ := Option.map_eq_some_iff.mp hpacket
  rw [fillPacket_eq hblock, hs, ← Option.some.inj hresult]
  rfl

/-- Freeing the packet gives back the heap from before. -/
theorem free_withPacket {h : Heap} {e : ByteOrder} {b : Nat} {p : LoadMemFromFileCmd}
    (hfree : h b = none) : (withPacket h e b p).free ⟨b, 0⟩ = some h := by
  rw [withPacket, record, Heap.free_update, Heap.update_none hfree]

/-- What `malloc` gives to the harness on records. -/
def onRecords (a : Allocator) (h : Heap) : Option LoadMemFromFileCmd :=
  (a.alloc h sizeofLoadMemFromFileCmd).map fun _ => .cleared

/-- **One call.** From every heap, and whatever `malloc` does, the call has a result: it is that of
the harness on records, and the heap is what it was. -/
theorem fuzzerTestOneInput_eq (t : CFS.Target) (e : ByteOrder) (a : Allocator) (data : List UInt8)
    (h : Heap) :
    ∃ result, MM.fuzzerTestOneInput t e (onRecords a h) data = some result ∧
      fuzzerTestOneInput t e a data h = some (h, result) := by
  unfold MM.fuzzerTestOneInput fuzzerTestOneInput loadConstructPacket
  by_cases hshort : data.length < sizeofLoadMemFromFileCmd
  · rw [if_pos hshort, if_pos hshort]
    exact ⟨_, rfl, rfl⟩
  rw [if_neg hshort, if_neg hshort, if_neg hshort]
  unfold onRecords Heap.malloc
  cases ha : a.alloc h sizeofLoadMemFromFileCmd with
  | none =>
    refine ⟨(0, none), ?_, rfl⟩
    rw [Option.map_none, MM.loadConstructPacket, if_neg hshort]
    rfl
  | some answer =>
    obtain ⟨b, block⟩ := answer
    obtain ⟨hfree, hblock⟩ := a.fresh ha
    have hdata : sizeofLoadMemFromFileCmd ≤ data.length := Nat.not_lt.mp hshort
    obtain ⟨status, hsim, -⟩ := (Command.ofInput e data).exists_simulation t
    refine ⟨(0, some status), ?_, ?_⟩
    · simp only [Option.map_some, loadConstructPacket_eq t e .cleared hdata, Option.bind_eq_bind,
        Option.bind_some, hsim]
    · simp only [fillPacket_of_le h b hblock hdata, Option.bind_eq_bind, Option.bind_some,
        loadMemFromFileCmdSimulation_withPacket hsim, free_withPacket hfree]

/-- **A whole process.** Any number of calls on any inputs, with any successes and failures of
`malloc`, never use memory wrongly, return what the harness on records does, and leak nothing: the
heap is what it was. -/
theorem campaign_eq (t : CFS.Target) (e : ByteOrder) (calls : List (Allocator × List UInt8))
    (h : Heap) :
    ∃ results,
      calls.mapM (fun c => MM.fuzzerTestOneInput t e (onRecords c.1 h) c.2) = some results ∧
      campaign t e calls h = some (h, results) := by
  induction calls with
  | nil => exact ⟨[], rfl, rfl⟩
  | cons c calls ih =>
    obtain ⟨results, hrecords, hcampaign⟩ := ih
    obtain ⟨result, hrecord, hcall⟩ := fuzzerTestOneInput_eq t e c.1 c.2 h
    refine ⟨result :: results, ?_, ?_⟩
    · simp [List.mapM_cons, hrecord, hrecords]
    · simp [campaign, hcall, hcampaign]

end MM.InMemory
