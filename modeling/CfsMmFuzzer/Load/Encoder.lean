-- SUMMARY: Inputs for given commands: the image of the packet constructor, and what it makes of the seed layouts of the Makefile.
import CfsMmFuzzer.Harness.Seeds
import CfsMmFuzzer.Load.Decoder

/-!
# Encoding inputs

`layout` is the order in which the constructor reads its input. From it come a
preimage of every command, and with that the exact image of the constructor, and
the decoding of the seed layouts.
-/

namespace MM

open ByteOrder (slice word32 word64)

/-! ## The input layout -/

/-- An input by its fields; `rest` holds the destination and the path. -/
def layout (e : ByteOrder) (b : UInt8) (w crc : UInt32) (rest : List UInt8) : List UInt8 :=
  [b] ++ e.bytes 4 w.toNat ++ e.bytes 4 crc.toNat ++ rest

section Layout

variable (e : ByteOrder) (b : UInt8) (w crc : UInt32) (rest : List UInt8)

private theorem length_layout_head :
    ([b] ++ e.bytes 4 w.toNat ++ e.bytes 4 crc.toNat).length = 9 := by
  simp

theorem length_layout : (layout e b w crc rest).length = 9 + rest.length := by
  rw [layout, List.length_append, length_layout_head]

theorem byteAt_layout_zero : byteAt (layout e b w crc rest) 0 = b := rfl

theorem word32_layout_one : word32 e (layout e b w crc rest) 1 = w := by
  rw [layout, List.append_assoc]
  exact ByteOrder.word32_append e [b] _ w

theorem word32_layout_five : word32 e (layout e b w crc rest) 5 = crc := by
  have hpre : ([b] ++ e.bytes 4 w.toNat).length = 5 := by simp
  have h := ByteOrder.word32_append e ([b] ++ e.bytes 4 w.toNat) rest crc
  rwa [hpre] at h

theorem byteAt_layout (i : Nat) : byteAt (layout e b w crc rest) (9 + i) = byteAt rest i := by
  rw [byteAt, byteAt, List.getD_eq_getElem?_getD, List.getD_eq_getElem?_getD, layout,
    List.getElem?_append_right (by simp), length_layout_head, Nat.add_sub_cancel_left]

theorem word64_layout (i : Nat) :
    word64 e (layout e b w crc rest) (9 + i) = word64 e rest i := by
  have hslice : slice (layout e b w crc rest) (9 + i) 8 = slice rest i 8 := by
    rw [slice, slice, layout, List.drop_append, length_layout_head,
      List.drop_of_length_le (by simp)]
    simp
  rw [word64, word64, hslice]

/-! ## Decoding a layout -/

theorem ofInput_layout_memType :
    (Command.ofInput e (layout e b w crc rest)).memType = .ofByte b := rfl

theorem ofInput_layout_numOfBytes :
    (Command.ofInput e (layout e b w crc rest)).numOfBytes =
      w % maxLoadFileData (MemType.ofByte b).code + 1 := by
  simp only [Command.ofInput, word32_layout_one, byteAt_layout_zero]

theorem ofInput_layout_crc : (Command.ofInput e (layout e b w crc rest)).crc = crc := by
  simp only [Command.ofInput, word32_layout_five]

variable (s p : UInt8) (a : UInt64) (post : List UInt8)

/-- An even choice byte is followed by the symbol and the path. -/
theorem ofInput_layout_symbol :
    (Command.ofInput e (layout e b w crc ([0, s, p] ++ post))).dest = .symbol (symbolIndex s) ∧
      (Command.ofInput e (layout e b w crc ([0, s, p] ++ post))).path = pathIndex p := by
  have hchoice := byteAt_layout e b w crc ([0, s, p] ++ post) 0
  have hsymbol := byteAt_layout e b w crc ([0, s, p] ++ post) 1
  have hpath := byteAt_layout e b w crc ([0, s, p] ++ post) 2
  have heven : byteAt ([0, s, p] ++ post) 0 % 2 = 0 := rfl
  simp only [Nat.add_zero, Nat.reduceAdd] at hchoice hsymbol hpath
  simp only [Command.ofInput, hchoice, heven, if_true, hsymbol, hpath]
  exact ⟨rfl, rfl⟩

/-- An odd choice byte is followed by the address and the path. -/
theorem ofInput_layout_direct :
    (Command.ofInput e (layout e b w crc ([1] ++ e.bytes 8 a.toNat ++ [p] ++ post))).dest =
        .direct (offsetIndex a) ∧
      (Command.ofInput e (layout e b w crc ([1] ++ e.bytes 8 a.toNat ++ [p] ++ post))).path =
        pathIndex p := by
  have hchoice := byteAt_layout e b w crc ([1] ++ e.bytes 8 a.toNat ++ [p] ++ post) 0
  have haddr := word64_layout e b w crc ([1] ++ e.bytes 8 a.toNat ++ [p] ++ post) 1
  have hpath := byteAt_layout e b w crc ([1] ++ e.bytes 8 a.toNat ++ [p] ++ post) 9
  have hodd : byteAt ([1] ++ e.bytes 8 a.toNat ++ [p] ++ post) 0 % 2 ≠ 0 := by
    rw [show byteAt ([1] ++ e.bytes 8 a.toNat ++ [p] ++ post) 0 = 1 from rfl]
    decide
  have hword : word64 e ([1] ++ e.bytes 8 a.toNat ++ [p] ++ post) 1 = a := by
    rw [List.append_assoc _ [p]]
    exact ByteOrder.word64_append e [1] _ a
  have hbyte : byteAt ([1] ++ e.bytes 8 a.toNat ++ [p] ++ post) 9 = p := by
    have hpre : ([1] ++ e.bytes 8 a.toNat).length = 9 := by simp
    rw [byteAt, List.append_assoc, List.getD_eq_getElem?_getD,
      List.getElem?_append_right hpre.le, hpre]
    rfl
  simp only [Nat.add_zero, Nat.reduceAdd] at hchoice haddr hpath
  simp only [Command.ofInput, hchoice, hodd, if_false, haddr, hpath, hword, hbyte, and_self]

end Layout

/-! ## A preimage of every command -/

/-- A first byte that selects the memory type. -/
def MemType.choice : MemType → UInt8
  | ram => 0
  | eeprom => 1

/-- The input bytes of a destination and a path, filled up to packet length. -/
def Destination.toInput (e : ByteOrder) (path : Fin CFS.numValidPaths) :
    Destination → List UInt8
  | symbol i => [0, UInt8.ofNat i, UInt8.ofNat path] ++ List.replicate 120 0
  | direct o =>
      [1] ++ e.bytes 8 (UInt64.ofNat o).toNat ++ [UInt8.ofNat path] ++ List.replicate 120 0

/-- An input that chooses the command. -/
def Command.toInput (e : ByteOrder) (c : Command) : List UInt8 :=
  layout e c.memType.choice (c.numOfBytes - 1) c.crc (c.dest.toInput e c.path)

theorem Command.length_toInput (e : ByteOrder) (c : Command) :
    sizeofLoadMemFromFileCmd ≤ (c.toInput e).length := by
  rw [toInput, length_layout]
  cases c.dest <;> simp [Destination.toInput, sizeofLoadMemFromFileCmd]

theorem MemType.ofByte_choice (m : MemType) : ofByte m.choice = m := by
  cases m <;> rfl

theorem symbolIndex_ofNat (i : Fin CFS.numValidSymbols) : symbolIndex (UInt8.ofNat i) = i := by
  have hi : i.val < 24 := i.isLt
  apply Fin.ext
  simp only [symbolIndex, UInt8.toNat_ofNat', CFS.numValidSymbols_eq]
  omega

theorem pathIndex_ofNat (i : Fin CFS.numValidPaths) : pathIndex (UInt8.ofNat i) = i := by
  have hi : i.val < 15 := i.isLt
  apply Fin.ext
  simp only [pathIndex, UInt8.toNat_ofNat', CFS.numValidPaths_eq]
  omega

theorem offsetIndex_ofNat (o : Fin (2 ^ 31)) : offsetIndex (UInt64.ofNat o) = o := by
  have ho := o.isLt
  apply Fin.ext
  simp only [offsetIndex, UInt64.toNat_ofNat']
  omega

/-- **Every command is chosen by some input.** -/
theorem Command.ofInput_toInput (e : ByteOrder) (c : Command) : ofInput e (c.toInput e) = c := by
  have hmem : (ofInput e (c.toInput e)).memType = c.memType := by
    rw [toInput, ofInput_layout_memType, MemType.ofByte_choice]
  have hnum : (ofInput e (c.toInput e)).numOfBytes = c.numOfBytes := by
    have hpos := c.numOfBytes_pos
    have hle := c.numOfBytes_le
    have hlt := c.numOfBytes.toNat_lt
    rw [toInput, ofInput_layout_numOfBytes, MemType.ofByte_choice, ← UInt32.toNat_inj,
      toNat_mod_limit_add_one, UInt32.toNat_sub, UInt32.toNat_one,
      show 2 ^ 32 - 1 + c.numOfBytes.toNat = c.numOfBytes.toNat - 1 + 2 ^ 32 by omega,
      Nat.add_mod_right, Nat.mod_eq_of_lt (a := c.numOfBytes.toNat - 1) (by omega),
      Nat.mod_eq_of_lt (by omega)]
    omega
  have hdest : (ofInput e (c.toInput e)).dest = c.dest ∧
      (ofInput e (c.toInput e)).path = c.path := by
    rw [toInput]
    cases c.dest with
    | symbol i =>
        rw [Destination.toInput, (ofInput_layout_symbol ..).1, (ofInput_layout_symbol ..).2,
          symbolIndex_ofNat, pathIndex_ofNat]
        exact ⟨rfl, rfl⟩
    | direct o =>
        rw [Destination.toInput, (ofInput_layout_direct ..).1, (ofInput_layout_direct ..).2,
          offsetIndex_ofNat, pathIndex_ofNat]
        exact ⟨rfl, rfl⟩
  exact Command.ext hmem hnum (ofInput_layout_crc ..) hdest.1 hdest.2

/-! ## The image of the constructor -/

/-- The intended command space: what the fields of a packet may be. Memory type 1 is RAM, type 2
is EEPROM. Only the addresses and the two tables are taken from the configuration. -/
structure IntendedPacket (t : CFS.Target) (p : LoadMemFromFileCmd) : Prop where
  cmdHeader : p.cmdHeader = ⟨0x1888, 0xC000, 120, 0⟩
  padding : p.padding1 = .zeros 3 ∧ p.padding2 = .zeros 4 ∧ p.destSymAddress.padding = .zeros 4
  memType : p.memType = 1 ∨ p.memType = 2
  numOfBytes : 1 ≤ p.numOfBytes.toNat ∧
    p.numOfBytes.toNat ≤ if p.memType = 1 then 1024 * 1024 else 128 * 1024
  dest :
    (∃ s ∈ CFS.validSymbols, p.destSymAddress.symName.bytes =
        s.chars ++ List.replicate (20 - s.length) 0 ∧ p.destSymAddress.offset = 0) ∨
    (p.destSymAddress.symName = .zeros _ ∧
      ∃ base, base = (if p.memType = 1 then t.defaultRamAddr else t.defaultEepromAddr).toNat ∧
        base ≤ p.destSymAddress.offset.toNat ∧ p.destSymAddress.offset.toNat ≤ base + 0x7FFFFFFF)
  fileName : ∃ path ∈ CFS.validPaths, p.fileName.bytes =
    path.chars ++ CString.ascii "testfile.bin" ++ List.replicate (64 - (path.length + 12)) 0

/-- The limit of a type, by its code. -/
theorem limit_of_code {m : MemType} {c : UInt8} (h : m.code = c) :
    m.limit = if c = 1 then 1024 * 1024 else 128 * 1024 := by
  subst h
  cases m <;> rfl

/-- The default address of a type, by its code. -/
theorem base_of_code (t : CFS.Target) {m : MemType} {c : UInt8} (h : m.code = c) :
    m.base t = if c = 1 then t.defaultRamAddr else t.defaultEepromAddr := by
  subst h
  cases m <;> rfl

theorem symbolAt_get_of_mem {s : CString} (h : s ∈ CFS.validSymbols) : ∃ i, symbolAt i = s :=
  List.mem_iff_get.mp h

theorem bytes_pad_symbolAt (i : Fin CFS.numValidSymbols) :
    (CharArray.pad OS.maxApiName (symbolAt i)).bytes =
      (symbolAt i).chars ++ List.replicate (OS.maxApiName - (symbolAt i).length) 0 :=
  CharArray.bytes_pad (symbolAt_length i).2.le

theorem bytes_pad_fileNameAt (i : Fin CFS.numValidPaths) :
    (CharArray.pad OS.maxPathLen (fileNameAt i)).bytes =
      (CFS.validPaths.get i).chars ++ CString.ascii "testfile.bin" ++ List.replicate
        (64 - ((CFS.validPaths.get i).length + 12)) 0 := by
  have hle : (fileNameAt i).length ≤ OS.maxPathLen :=
    (fileNameAt_length i).2.trans (by decide)
  rw [CharArray.bytes_pad hle, fileNameAt, CString.chars_append, CString.length_append]
  rfl

theorem Command.toPacket_intended (t : CFS.Target) (c : Command) :
    IntendedPacket t (c.toPacket t) where
  cmdHeader := rfl
  padding := ⟨rfl, rfl, by cases hd : c.dest <;> simp [toPacket, hd, Destination.toSymAddr]⟩
  memType := c.memType.code_eq_or
  numOfBytes := ⟨c.numOfBytes_pos, c.numOfBytes_le.trans_eq (limit_of_code rfl)⟩
  dest := by
    simp only [toPacket]
    cases c.dest with
    | symbol i => exact .inl ⟨symbolAt i, List.get_mem _ i, bytes_pad_symbolAt i, rfl⟩
    | direct o =>
        have haddr := Destination.toNat_address t c.memType o
        have ho := o.isLt
        refine .inr ⟨rfl, _, congrArg UInt64.toNat (base_of_code t rfl), ?_, ?_⟩
        · exact (Nat.le_add_right _ _).trans haddr.ge
        · refine haddr.le.trans ?_
          omega
  fileName := ⟨_, List.get_mem _ c.path, bytes_pad_fileNameAt c.path⟩

/-- A destination that the intended command space allows. -/
theorem IntendedPacket.exists_dest {t : CFS.Target} {p : LoadMemFromFileCmd}
    (h : IntendedPacket t p) {m : MemType} (hm : m.code = p.memType) :
    ∃ d : Destination, d.toSymAddr t m = p.destSymAddress := by
  obtain ⟨-, -, hpad⟩ := h.padding
  obtain ⟨s, hs, hname, hoff⟩ | ⟨hname, _, rfl, hlo, hhi⟩ := h.dest
  · obtain ⟨i, rfl⟩ := symbolAt_get_of_mem hs
    have hsym := CharArray.ext ((bytes_pad_symbolAt i).trans hname.symm)
    exact ⟨.symbol i, SymAddr.ext hsym hpad.symm hoff.symm⟩
  · rw [← base_of_code t hm] at hlo hhi
    refine ⟨.direct ⟨p.destSymAddress.offset.toNat - (m.base t).toNat, by omega⟩,
      SymAddr.ext hname.symm hpad.symm ?_⟩
    rw [← UInt64.toNat_inj, Destination.toSymAddr, Destination.toNat_address]
    simp only
    omega

/-- Every packet of the intended command space stands for a command. -/
theorem IntendedPacket.exists_command {t : CFS.Target} {p : LoadMemFromFileCmd}
    (h : IntendedPacket t p) : ∃ c : Command, c.toPacket t = p := by
  obtain ⟨m, hm⟩ := MemType.exists_code_eq h.memType
  obtain ⟨d, hd⟩ := h.exists_dest hm
  obtain ⟨path, hpath, hname⟩ := h.fileName
  obtain ⟨i, rfl⟩ := List.mem_iff_get.mp hpath
  obtain ⟨hpos, hle⟩ := h.numOfBytes
  have hlimit : p.numOfBytes.toNat ≤ m.limit := hle.trans_eq (limit_of_code hm).symm
  refine ⟨⟨m, p.numOfBytes, hpos, hlimit, p.crc, d, i⟩, ?_⟩
  exact LoadMemFromFileCmd.ext h.cmdHeader.symm hm h.padding.1.symm rfl rfl h.padding.2.1.symm hd
    (CharArray.ext ((bytes_pad_fileNameAt i).trans hname.symm))

/-- **The image of the packet constructor is the intended command space.** -/
theorem exists_loadConstructPacket_iff (t : CFS.Target) (e : ByteOrder)
    (block p : LoadMemFromFileCmd) :
    (∃ data, sizeofLoadMemFromFileCmd ≤ data.length ∧
        loadConstructPacket t e (some block) data = some (some p)) ↔
      IntendedPacket t p := by
  constructor
  · intro h
    obtain ⟨data, hlen, hdata⟩ := h
    rw [loadConstructPacket_eq t e block hlen] at hdata
    simp only [Option.some.injEq] at hdata
    exact hdata ▸ (Command.ofInput e data).toPacket_intended t
  · intro h
    obtain ⟨c, rfl⟩ := h.exists_command
    refine ⟨c.toInput e, c.length_toInput e, ?_⟩
    rw [loadConstructPacket_eq t e block (c.length_toInput e), c.ofInput_toInput]

/-! ## The seed layouts -/

/-- The packet says what the seed was laid out for. -/
structure SeedAgrees (m : UInt8) (n crc : UInt32) (dest : SeedDest) (p : UInt8)
    (packet : LoadMemFromFileCmd) : Prop where
  memType : packet.memType = m
  numOfBytes : packet.numOfBytes = n
  crc : packet.crc = crc
  dest : match dest with
    | .symbol s => packet.destSymAddress.offset = 0 ∧
        ∃ name, CFS.validSymbols[s.toNat]? = some name ∧
          packet.destSymAddress.symName.cstring? = some name
    | .address a => packet.destSymAddress.offset = a ∧
        ∃ name : CString, name.length = 0 ∧
          packet.destSymAddress.symName.cstring? = some name
  fileName : ∃ path, CFS.validPaths[p.toNat]? = some path ∧
    packet.fileName.cstring? = some (path.append testFile)

theorem seed_symbol (m : UInt8) (n crc : UInt32) (s p : UInt8) :
    seed m n crc (.symbol s) p =
      layout .little m n crc ([0, s, p] ++ List.replicate 188 0) := rfl

theorem seed_address (m : UInt8) (n crc : UInt32) (a : UInt64) (p : UInt8) :
    seed m n crc (.address a) p =
      layout .little m n crc
        ([1] ++ ByteOrder.little.bytes 8 a.toNat ++ [p] ++ List.replicate 181 0) := rfl

/-- The fields that the constructor decodes from a seed. Type and size are not
the ones it was written with. -/
theorem ofInput_seed (m : UInt8) (n crc : UInt32) (dest : SeedDest) (p : UInt8) :
    Command.ofInput .little (seed m n crc dest p) =
      { memType := .ofByte m
        numOfBytes := n % maxLoadFileData (MemType.ofByte m).code + 1
        numOfBytes_pos := mod_limit_add_one_pos _ _
        numOfBytes_le := mod_limit_add_one_le _ _
        crc := crc
        dest := match dest with
          | .symbol s => .symbol (symbolIndex s)
          | .address a => .direct (offsetIndex a)
        path := pathIndex p } := by
  cases dest with
  | symbol s =>
      rw [seed_symbol]
      exact Command.ext rfl (ofInput_layout_numOfBytes ..) (ofInput_layout_crc ..)
        (ofInput_layout_symbol ..).1 (ofInput_layout_symbol ..).2
  | address a =>
      rw [seed_address]
      exact Command.ext rfl (ofInput_layout_numOfBytes ..) (ofInput_layout_crc ..)
        (ofInput_layout_direct ..).1 (ofInput_layout_direct ..).2

theorem length_seed (m : UInt8) (n crc : UInt32) (dest : SeedDest) (p : UInt8) :
    (seed m n crc dest p).length = 200 := by
  cases dest with
  | symbol s => rw [seed_symbol, length_layout, List.length_append, List.length_replicate]; rfl
  | address a =>
      rw [seed_address, length_layout, List.length_append, List.length_append, List.length_append,
        ByteOrder.length_bytes, List.length_replicate]
      rfl

/-- The decoder adds 1 to the parity of the byte that the recipe sets to the type. -/
theorem code_ofByte_ne (m : UInt8) : (MemType.ofByte m).code ≠ m := by
  intro h
  rw [MemType.code_ofByte] at h
  have hnat := congrArg UInt8.toNat h
  rw [UInt8.toNat_add, UInt8.toNat_mod] at hnat
  simp at hnat
  omega

/-- **No seed is decoded to the command it was written for**: the memory type is
always the other one. -/
theorem loadConstructPacket_seed (t : CFS.Target) (block : LoadMemFromFileCmd) (m : UInt8)
    (n crc : UInt32) (dest : SeedDest) (p : UInt8) :
    ∃ packet, loadConstructPacket t .little (some block) (seed m n crc dest p) =
        some (some packet) ∧
      packet.memType = m % 2 + 1 ∧
      packet.numOfBytes = n % maxLoadFileData packet.memType + 1 ∧
      ¬ SeedAgrees m n crc dest p packet := by
  have hlen : sizeofLoadMemFromFileCmd ≤ (seed m n crc dest p).length := by
    rw [length_seed]
    decide
  refine ⟨_, loadConstructPacket_eq t .little block hlen, ?_⟩
  rw [ofInput_seed]
  exact ⟨MemType.code_ofByte m, rfl, fun h => code_ofByte_ne m h.memType⟩

/-- `valid_ram.bin` becomes an EEPROM command of 1025 bytes. -/
theorem validRam_not_agrees :
    ¬ ∃ packet, loadConstructPacket .default .little (some .cleared) validRam =
        some (some packet) ∧
      SeedAgrees 1 1024 0 (.symbol 0) 0 packet := by
  intro h
  obtain ⟨packet, hpacket, hagrees⟩ := h
  have hlen : sizeofLoadMemFromFileCmd ≤ validRam.length := by
    rw [validRam, length_seed]
    decide
  rw [loadConstructPacket_eq .default .little .cleared hlen] at hpacket
  obtain rfl := Option.some.inj (Option.some.inj hpacket)
  exact absurd hagrees.memType (by decide)

-- `valid_eeprom.bin` becomes a RAM command, and `max_size.bin` one of a single byte
example : (Command.ofInput .little validEeprom).memType = .ram ∧
    (Command.ofInput .little maxSize).numOfBytes = 1 := by
  decide +kernel

end MM
