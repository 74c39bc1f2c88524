-- SUMMARY: The packet constructor decodes every long enough input to the packet of one command.
import Mathlib.Data.Nat.ModEq
import CfsMmFuzzer.Harness.StringMacros
import CfsMmFuzzer.Load.Command

/-!
# The packet constructor

`Command.ofInput` reads a command off an input. For an input at least as long as
the packet every bounds check of the constructor passes, and its result is the
packet of that command (`loadConstructPacket_eq`). Which inputs give the same
packet then is a question about commands.
-/

namespace MM

open ByteOrder (word32 word64)

/-! ## Reading the input -/

/-- The input byte at an offset. -/
def byteAt (data : List UInt8) (i : Nat) : UInt8 := data.getD i 0

theorem getElem?_eq_byteAt {data : List UInt8} {i : Nat} (h : i < data.length) :
    data[i]? = some (byteAt data i) := by
  simp [byteAt, h]

/-- The symbol that a byte selects. -/
def symbolIndex (b : UInt8) : Fin CFS.numValidSymbols :=
  ⟨b.toNat % CFS.numValidSymbols, Nat.mod_lt _ (by decide)⟩

/-- The directory that a byte selects. -/
def pathIndex (b : UInt8) : Fin CFS.numValidPaths :=
  ⟨b.toNat % CFS.numValidPaths, Nat.mod_lt _ (by decide)⟩

/-- The offset from the default address that a word selects. -/
def offsetIndex (w : UInt64) : Fin (2 ^ 31) := ⟨w.toNat % 2 ^ 31, Nat.mod_lt _ (by decide)⟩

theorem and_mask_eq (w : UInt64) : w &&& 0x7FFFFFFF = UInt64.ofNat (offsetIndex w) := by
  apply UInt64.toNat_inj.mp
  have hmask : (0x7FFFFFFF : UInt64).toNat = 2 ^ 31 - 1 := rfl
  have hlt : w.toNat % 2 ^ 31 < 2 ^ 64 := (Nat.mod_lt _ (by decide)).trans (by decide)
  rw [UInt64.toNat_and, hmask, Nat.and_two_pow_sub_one_eq_mod, UInt64.toNat_ofNat', offsetIndex]
  exact (Nat.mod_eq_of_lt hlt).symm

/-- The size that a word selects. -/
theorem toNat_mod_limit_add_one (m : MemType) (w : UInt32) :
    (w % maxLoadFileData m.code + 1).toNat = w.toNat % m.limit + 1 := by
  have hb := m.limit_bounds
  have hlt := Nat.mod_lt w.toNat hb.1
  rw [UInt32.toNat_add, UInt32.toNat_mod, ← m.limit_eq, UInt32.toNat_one]
  omega

theorem mod_limit_add_one_pos (m : MemType) (w : UInt32) :
    0 < (w % maxLoadFileData m.code + 1).toNat := by
  rw [toNat_mod_limit_add_one]
  exact Nat.succ_pos _

theorem mod_limit_add_one_le (m : MemType) (w : UInt32) :
    (w % maxLoadFileData m.code + 1).toNat ≤ m.limit := by
  rw [toNat_mod_limit_add_one]
  exact Nat.mod_lt _ m.limit_bounds.1

/-- The command that an input chooses. -/
def Command.ofInput (e : ByteOrder) (data : List UInt8) : Command where
  memType := .ofByte (byteAt data 0)
  numOfBytes := word32 e data 1 % maxLoadFileData (MemType.ofByte (byteAt data 0)).code + 1
  numOfBytes_pos := mod_limit_add_one_pos _ _
  numOfBytes_le := mod_limit_add_one_le _ _
  crc := word32 e data 5
  dest :=
    if byteAt data 9 % 2 = 0 then .symbol (symbolIndex (byteAt data 10))
    else .direct (offsetIndex (word64 e data 10))
  path := pathIndex (byteAt data (if byteAt data 9 % 2 = 0 then 11 else 18))

/-! ## One section after the other -/

section Sections

variable {t : CFS.Target} {e : ByteOrder} {data : List UInt8} {s : DecodeState}

theorem decodeMemType_eq (h : s.dataOffset < data.length) :
    decodeMemType data s = some
      { packet := { s.packet with memType := (MemType.ofByte (byteAt data s.dataOffset)).code }
        dataOffset := s.dataOffset + 1 } := by
  unfold decodeMemType
  rw [if_pos h, getElem?_eq_byteAt h, MemType.code_ofByte]
  rfl

theorem decodeNumOfBytes_eq (h : s.dataOffset + 4 ≤ data.length) :
    decodeNumOfBytes e data s = some
      { packet := { s.packet with
          numOfBytes := word32 e data s.dataOffset % maxLoadFileData s.packet.memType + 1 }
        dataOffset := s.dataOffset + 4 } := by
  simp [decodeNumOfBytes, h, CFS.safeMemcpy, ByteOrder.read_of_le h, word32]

theorem decodeCrc_eq (h : s.dataOffset + 4 ≤ data.length) :
    decodeCrc e data s = some
      { packet := { s.packet with crc := word32 e data s.dataOffset }
        dataOffset := s.dataOffset + 4 } := by
  simp [decodeCrc, h, CFS.safeMemcpy, ByteOrder.read_of_le h, word32]

theorem decodeSymbol_eq (h : s.dataOffset < data.length) :
    decodeSymbol data s = some
      { packet := { s.packet with destSymAddress := { s.packet.destSymAddress with
          symName := .pad _ (symbolAt (symbolIndex (byteAt data s.dataOffset))), offset := 0 } }
        dataOffset := s.dataOffset + 1 } := by
  have hsym : CFS.validSymbols[(byteAt data s.dataOffset).toNat % CFS.numValidSymbols]? =
      some (symbolAt (symbolIndex (byteAt data s.dataOffset))) :=
    List.getElem?_eq_getElem (symbolIndex (byteAt data s.dataOffset)).isLt
  have hfit := (symbolAt_length (symbolIndex (byteAt data s.dataOffset))).2
  have hcopy : CFS.safeStrncpy s.packet.destSymAddress.symName
      (symbolAt (symbolIndex (byteAt data s.dataOffset))) (UInt64.ofNat OS.maxApiName) =
        some (.pad _ (symbolAt (symbolIndex (byteAt data s.dataOffset)))) := by
    have hsize : (UInt64.ofNat OS.maxApiName).toNat = OS.maxApiName := rfl
    rw [CFS.safeStrncpy_eq _ _ hsize (by decide), CString.take_of_length_le (by omega)]
  unfold decodeSymbol
  rw [if_pos ⟨by decide, h⟩, getElem?_eq_byteAt h]
  simp only [Option.bind_eq_bind, Option.bind_some, hsym, hcopy]

theorem decodeOffset_eq (h : s.dataOffset + 8 ≤ data.length)
    (hzero : s.packet.destSymAddress.symName = .zeros _) :
    decodeOffset t e data s = some
      { packet := { s.packet with destSymAddress := { s.packet.destSymAddress with
          offset := defaultAddr t s.packet.memType +
            UInt64.ofNat (offsetIndex (word64 e data s.dataOffset)) } }
        dataOffset := s.dataOffset + 8 } := by
  have hset : (CharArray.zeros OS.maxApiName).set 0 0 = some (.zeros _) := by decide
  simp only [decodeOffset, hzero, hset, Option.bind_eq_bind, Option.bind_some, h, if_true,
    CFS.safeMemcpy, Nat.zero_lt_succ, ByteOrder.read_of_le h, ← and_mask_eq, word64]

theorem decodeDest_symbol (h : s.dataOffset + 2 ≤ data.length)
    (heven : byteAt data s.dataOffset % 2 = 0) :
    decodeDest t e data s = some
      { packet := { s.packet with destSymAddress := { s.packet.destSymAddress with
          symName := .pad _ (symbolAt (symbolIndex (byteAt data (s.dataOffset + 1)))),
          offset := 0 } }
        dataOffset := s.dataOffset + 2 } := by
  have hlt : s.dataOffset < data.length := by omega
  unfold decodeDest
  rw [if_pos hlt, getElem?_eq_byteAt hlt]
  simp only [Option.bind_eq_bind, Option.bind_some, heven, if_true]
  exact decodeSymbol_eq h

theorem decodeDest_direct (h : s.dataOffset + 9 ≤ data.length)
    (hodd : byteAt data s.dataOffset % 2 ≠ 0)
    (hzero : s.packet.destSymAddress.symName = .zeros _) :
    decodeDest t e data s = some
      { packet := { s.packet with destSymAddress := { s.packet.destSymAddress with
          offset := defaultAddr t s.packet.memType +
            UInt64.ofNat (offsetIndex (word64 e data (s.dataOffset + 1))) } }
        dataOffset := s.dataOffset + 9 } := by
  have hlt : s.dataOffset < data.length := by omega
  unfold decodeDest
  rw [if_pos hlt, getElem?_eq_byteAt hlt]
  simp only [Option.bind_eq_bind, Option.bind_some, hodd, if_false]
  exact decodeOffset_eq (by simp only; omega) hzero

/-- The file-name step: the suffix is appended where it fits with a byte to spare. -/
theorem composeFileName_eq (path : CString) (fileName : CharArray OS.maxPathLen) :
    composeFileName path fileName = some (.pad _
      (if path.length + filenameSuffix.length + 1 < OS.maxPathLen
        then path.append filenameSuffix else path.take (OS.maxPathLen - 1))) := by
  have hsize : (UInt64.ofNat OS.maxPathLen).toNat = OS.maxPathLen := rfl
  have hsuffix : filenameSuffix.length = 12 := rfl
  have hlen : (path.take (OS.maxPathLen - 1)).length < OS.maxPathLen := by
    rw [CString.length_take]
    exact (Nat.min_le_left _ _).trans_lt (by decide)
  have hremaining : UInt64.ofNat OS.maxPathLen -
      UInt64.ofNat (path.take (OS.maxPathLen - 1)).length - 1 > UInt64.ofNat filenameSuffix.length ↔
        path.length + filenameSuffix.length + 1 < OS.maxPathLen := by
    rw [gt_iff_lt, UInt64.lt_iff_toNat_lt, CFS.toNat_strncat_bound hlen, hsize, hsuffix,
      UInt64.toNat_ofNat', CString.length_take]
    simp only [OS.maxPathLen]
    omega
  rw [composeFileName, CFS.safeStrncpy_eq fileName path hsize (by decide)]
  simp only [Option.bind_eq_bind, Option.bind_some, CharArray.cstring?_pad hlen, hremaining]
  split
  case isTrue h =>
    have hpath : path.take (OS.maxPathLen - 1) = path :=
      CString.take_of_length_le (by simp only [OS.maxPathLen] at h ⊢; omega)
    rw [hpath] at hlen ⊢
    rw [CFS.safeStrncat_pad _ hsize hlen, CString.take_of_length_le (by omega)]
  case isFalse => rfl

theorem decodeFileName_eq (h : s.dataOffset < data.length) :
    decodeFileName data s = some
      { packet := { s.packet with
          fileName := .pad _ (fileNameAt (pathIndex (byteAt data s.dataOffset))) }
        dataOffset := s.dataOffset + 1 } := by
  have hpath : CFS.validPaths[(byteAt data s.dataOffset).toNat % CFS.numValidPaths]? =
      some (CFS.validPaths.get (pathIndex (byteAt data s.dataOffset))) :=
    List.getElem?_eq_getElem (pathIndex (byteAt data s.dataOffset)).isLt
  have hlen := validPaths_length
    (List.get_mem CFS.validPaths (pathIndex (byteAt data s.dataOffset)))
  have hsuffix : filenameSuffix.length = 12 := rfl
  unfold decodeFileName
  rw [if_pos h, getElem?_eq_byteAt h]
  simp only [Option.bind_eq_bind, Option.bind_some, hpath, composeFileName_eq]
  rw [if_pos (by simp only [OS.maxPathLen]; omega)]
  rfl

end Sections

/-- **The constructor decodes every input of packet length to its command's
packet**, whatever the allocated block holds. -/
theorem loadConstructPacket_eq (t : CFS.Target) (e : ByteOrder) (block : LoadMemFromFileCmd)
    {data : List UInt8} (h : sizeofLoadMemFromFileCmd ≤ data.length) :
    loadConstructPacket t e (some block) data =
      some (some ((Command.ofInput e data).toPacket t)) := by
  have hlen : 120 ≤ data.length := h
  have hheader : initHeader .cleared =
      { LoadMemFromFileCmd.cleared with cmdHeader := loadHeader } := by
    decide
  unfold loadConstructPacket
  rw [if_neg (by omega), hheader]
  simp only [Option.bind_eq_bind]
  rw [decodeMemType_eq (by simp; omega), Option.bind_some,
    decodeNumOfBytes_eq (by simp; omega), Option.bind_some,
    decodeCrc_eq (by simp; omega), Option.bind_some]
  by_cases hchoice : byteAt data 9 % 2 = 0
  · rw [decodeDest_symbol (by simp; omega) hchoice, Option.bind_some,
      decodeFileName_eq (by simp; omega), Option.bind_some]
    simp only [Command.ofInput, Command.toPacket, Destination.toSymAddr, hchoice, if_true]
    rfl
  · rw [decodeDest_direct (by simp; omega) hchoice rfl, Option.bind_some,
      decodeFileName_eq (by simp; omega), Option.bind_some]
    simp only [Command.ofInput, Command.toPacket, Destination.toSymAddr, Destination.address,
      MemType.base_eq, hchoice, if_false]
    rfl

/-- Every packet is that of the command its input chooses. -/
theorem eq_toPacket_of_loadConstructPacket {t : CFS.Target} {e : ByteOrder}
    {block packet : LoadMemFromFileCmd} {data : List UInt8}
    (h : loadConstructPacket t e (some block) data = some (some packet)) :
    packet = (Command.ofInput e data).toPacket t := by
  rcases Nat.lt_or_ge data.length sizeofLoadMemFromFileCmd with hshort | hlen
  · unfold loadConstructPacket at h
    rw [if_pos hshort] at h
    cases h
  · rw [loadConstructPacket_eq t e block hlen] at h
    exact (Option.some.inj (Option.some.inj h)).symm

/-! ## Which bytes matter -/

/-- Two inputs select the same values: what the constructor makes of a byte or
word is its residue by the number of choices. -/
structure SameClass (e : ByteOrder) (data₁ data₂ : List UInt8) : Prop where
  memType : (byteAt data₁ 0).toNat ≡ (byteAt data₂ 0).toNat [MOD 2]
  numOfBytes : (word32 e data₁ 1).toNat ≡ (word32 e data₂ 1).toNat
    [MOD (MemType.ofByte (byteAt data₁ 0)).limit]
  crc : word32 e data₁ 5 = word32 e data₂ 5
  choice : (byteAt data₁ 9).toNat ≡ (byteAt data₂ 9).toNat [MOD 2]
  symbol : (byteAt data₁ 9).toNat % 2 = 0 →
    (byteAt data₁ 10).toNat ≡ (byteAt data₂ 10).toNat [MOD CFS.numValidSymbols] ∧
    (byteAt data₁ 11).toNat ≡ (byteAt data₂ 11).toNat [MOD CFS.numValidPaths]
  direct : (byteAt data₁ 9).toNat % 2 = 1 →
    (word64 e data₁ 10).toNat ≡ (word64 e data₂ 10).toNat [MOD 2 ^ 31] ∧
    (byteAt data₁ 18).toNat ≡ (byteAt data₂ 18).toNat [MOD CFS.numValidPaths]

theorem even_iff (b : UInt8) : b % 2 = 0 ↔ b.toNat % 2 = 0 := by
  rw [← UInt8.toNat_inj, UInt8.toNat_mod]
  rfl

theorem MemType.ofByte_eq_iff {a b : UInt8} : ofByte a = ofByte b ↔ a.toNat ≡ b.toNat [MOD 2] := by
  have ha := Nat.mod_two_eq_zero_or_one a.toNat
  have hb := Nat.mod_two_eq_zero_or_one b.toNat
  simp only [ofByte, even_iff, Nat.ModEq]
  rcases ha with ha | ha <;> rcases hb with hb | hb <;> simp [ha, hb]

theorem symbolIndex_eq_iff {a b : UInt8} :
    symbolIndex a = symbolIndex b ↔ a.toNat ≡ b.toNat [MOD CFS.numValidSymbols] := Fin.ext_iff

theorem pathIndex_eq_iff {a b : UInt8} :
    pathIndex a = pathIndex b ↔ a.toNat ≡ b.toNat [MOD CFS.numValidPaths] := Fin.ext_iff

theorem offsetIndex_eq_iff {a b : UInt64} :
    offsetIndex a = offsetIndex b ↔ a.toNat ≡ b.toNat [MOD 2 ^ 31] := Fin.ext_iff

theorem size_eq_iff (m : MemType) {a b : UInt32} :
    a % maxLoadFileData m.code + 1 = b % maxLoadFileData m.code + 1 ↔
      a.toNat ≡ b.toNat [MOD m.limit] := by
  rw [← UInt32.toNat_inj, toNat_mod_limit_add_one, toNat_mod_limit_add_one,
    Nat.add_right_cancel_iff]
  rfl

/-- Two inputs choose the same command exactly when they select the same values. -/
theorem Command.ofInput_eq_iff {e : ByteOrder} {data₁ data₂ : List UInt8} :
    ofInput e data₁ = ofInput e data₂ ↔ SameClass e data₁ data₂ := by
  rw [Command.ext_iff]
  simp only [ofInput]
  constructor
  · rintro ⟨hmem, hnum, hcrc, hdest, hpath⟩
    rw [← hmem, size_eq_iff] at hnum
    rw [MemType.ofByte_eq_iff] at hmem
    rw [pathIndex_eq_iff] at hpath
    simp only [even_iff] at hdest hpath
    -- the destination tells the two addressing modes apart
    rcases Nat.mod_two_eq_zero_or_one (byteAt data₁ 9).toNat with h₁ | h₁ <;>
      rcases Nat.mod_two_eq_zero_or_one (byteAt data₂ 9).toNat with h₂ | h₂ <;>
      simp only [h₁, h₂, if_true, one_ne_zero, if_false, reduceCtorEq, Destination.symbol.injEq,
        Destination.direct.injEq, symbolIndex_eq_iff, offsetIndex_eq_iff] at hdest hpath
    · exact ⟨hmem, hnum, hcrc, h₁.trans h₂.symm, fun _ => ⟨hdest, hpath⟩,
        fun h => absurd h (by omega)⟩
    · exact ⟨hmem, hnum, hcrc, h₁.trans h₂.symm, fun h => absurd h (by omega),
        fun _ => ⟨hdest, hpath⟩⟩
  · rintro ⟨hmem, hnum, hcrc, hchoice, hsymbol, hdirect⟩
    rw [← MemType.ofByte_eq_iff] at hmem
    rw [← size_eq_iff] at hnum
    refine ⟨hmem, hmem ▸ hnum, hcrc, ?_, ?_⟩
    · simp only [even_iff, ← show _ = _ from hchoice]
      split
      case isTrue h => rw [symbolIndex_eq_iff.mpr (hsymbol h).1]
      case isFalse h => rw [offsetIndex_eq_iff.mpr (hdirect (by omega)).1]
    · simp only [even_iff, ← show _ = _ from hchoice]
      split
      case isTrue h => exact pathIndex_eq_iff.mpr (hsymbol h).2
      case isFalse h => exact pathIndex_eq_iff.mpr (hdirect (by omega)).2

/-- **Which input bytes matter**: two inputs of packet length or more give
byte-identical packets exactly when they select the same values. -/
theorem loadConstructPacket_toBytes_eq_iff (t : CFS.Target) (e : ByteOrder)
    (block₁ block₂ : LoadMemFromFileCmd) {data₁ data₂ : List UInt8}
    (h₁ : sizeofLoadMemFromFileCmd ≤ data₁.length) (h₂ : sizeofLoadMemFromFileCmd ≤ data₂.length) :
    (∃ p₁ p₂, loadConstructPacket t e (some block₁) data₁ = some (some p₁) ∧
        loadConstructPacket t e (some block₂) data₂ = some (some p₂) ∧
        p₁.toBytes e = p₂.toBytes e) ↔
      SameClass e data₁ data₂ := by
  rw [loadConstructPacket_eq t e block₁ h₁, loadConstructPacket_eq t e block₂ h₂]
  simp only [Option.some.injEq]
  constructor
  · rintro ⟨p₁, p₂, rfl, rfl, hbytes⟩
    exact Command.ofInput_eq_iff.mp (Command.toPacket_inj.mp
      (LoadMemFromFileCmd.toBytes_inj.mp hbytes))
  · intro h
    exact ⟨_, _, rfl, rfl, by rw [Command.ofInput_eq_iff.mpr h]⟩

/-- Zero inputs of different lengths give the same packet. -/
theorem loadConstructPacket_zeros :
    ∃ p₁ p₂,
      loadConstructPacket .default .little (some .cleared) (List.replicate 120 0) = some (some p₁) ∧
      loadConstructPacket .default .little (some .cleared) (List.replicate 200 0) = some (some p₂) ∧
      p₁.toBytes .little = p₂.toBytes .little :=
  (loadConstructPacket_toBytes_eq_iff .default .little .cleared .cleared
    (by decide) (by decide)).mpr ⟨rfl, rfl, rfl, rfl, fun _ => ⟨rfl, rfl⟩, fun _ => ⟨rfl, rfl⟩⟩

end MM
