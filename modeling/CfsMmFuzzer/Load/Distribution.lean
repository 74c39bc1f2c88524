-- SUMMARY: How many inputs of one length the constructor decodes to a given command.
import Mathlib.Data.FinEnum
import CfsMmFuzzer.Base.Words
import CfsMmFuzzer.Load.Encoder

/-!
# Distribution of the packets

The constructor takes residues of bytes and words, in segments of the input one
after the other, and reads nothing behind them. So the inputs for a command are
counted segment by segment. They are as many for all sizes, CRCs and addresses,
but the first 16 symbols and the first directory have more than the others.
-/

namespace MM

open ByteOrder (slice word32 word64)
open Words

/-! ## Residues of bytes and words -/

theorem ncard_byte_residues {n r : Nat} (hr : r < n) :
    {b : UInt8 | b.toNat % n = r}.ncard = residues 256 n r := by
  have himage : Set.image UInt8.toNat {b | b.toNat % n = r} = {v | v < 256 ∧ v % n = r} := by
    ext v
    constructor
    · rintro ⟨b, hb, rfl⟩
      exact ⟨b.toNat_lt, hb⟩
    · rintro ⟨hv, hr⟩
      have htoNat : (UInt8.ofNat v).toNat = v := UInt8.toNat_ofNat_of_lt' hv
      exact ⟨UInt8.ofNat v, (congrArg (· % n) htoNat).trans hr, htoNat⟩
  rw [← ncard_residues hr, ← himage,
    Set.ncard_image_of_injective _ fun _ _ h => UInt8.toNat_inj.mp h]

/-- Words of memory, by their values. -/
theorem ncard_words_value (e : ByteOrder) (k : Nat) (p : Nat → Prop) :
    (words k fun w => p (e.value w)).ncard = {v | v < 256 ^ k ∧ p v}.ncard := by
  have himage : Set.image e.value (words k fun w => p (e.value w)) = {v | v < 256 ^ k ∧ p v} := by
    ext v
    constructor
    · rintro ⟨w, ⟨rfl, hp⟩, rfl⟩
      exact ⟨e.value_lt w, hp⟩
    · rintro ⟨hv, hp⟩
      have hvalue : e.value (e.bytes k v) = v := by
        rw [ByteOrder.value_bytes, Nat.mod_eq_of_lt hv]
      have hmem : p (e.value (e.bytes k v)) := hvalue.symm ▸ hp
      exact ⟨e.bytes k v, ⟨e.length_bytes k v, hmem⟩, hvalue⟩
  have hinj : Set.InjOn e.value (words k fun w => p (e.value w)) := fun u hu w hw h =>
    (ByteOrder.value_inj (hu.1.trans hw.1.symm)).mp h
  rw [← himage, hinj.ncard_image]

/-- A segment of one byte with a residue. -/
def byteSegment (n r : Nat) : Nat × (List UInt8 → Prop) := (1, fun w => (byteAt w 0).toNat % n = r)

/-- A segment of one word with a residue. -/
def wordSegment (e : ByteOrder) (k n r : Nat) : Nat × (List UInt8 → Prop) :=
  (k, fun w => e.value w % n = r)

theorem ncard_byteSegment {n r : Nat} (hr : r < n) :
    (words (byteSegment n r).1 (byteSegment n r).2).ncard = residues 256 n r := by
  rw [← ncard_byte_residues hr]
  exact ncard_words_one _

theorem ncard_wordSegment (e : ByteOrder) {k n r : Nat} (hr : r < n) :
    (words (wordSegment e k n r).1 (wordSegment e k n r).2).ncard = residues (256 ^ k) n r := by
  rw [← ncard_residues hr]
  exact ncard_words_value e k (· % n = r)

/-! ## The segments of a command -/

namespace Destination

/-- How much of the input is read. -/
def inputLength : Destination → Nat
  | symbol _ => 12
  | direct _ => 19

/-- The number of choices of the input bytes for a destination. -/
def weight : Destination → Nat
  | symbol i => 128 * residues 256 CFS.numValidSymbols i
  | direct _ => 128 * 2 ^ 33

def segments (e : ByteOrder) : Destination → List (Nat × (List UInt8 → Prop))
  | symbol i => [byteSegment 2 0, byteSegment CFS.numValidSymbols i]
  | direct o => [byteSegment 2 1, wordSegment e 8 (2 ^ 31) o]

end Destination

namespace Command

/-- The number of choices of the input bytes that are read for a command. -/
def weight (c : Command) : Nat :=
  128 * (2 ^ 32 / c.memType.limit) * (c.dest.weight * residues 256 CFS.numValidPaths c.path)

def segments (e : ByteOrder) (c : Command) : List (Nat × (List UInt8 → Prop)) :=
  [byteSegment 2 c.memType.choice.toNat,
    wordSegment e 4 c.memType.limit (c.numOfBytes.toNat - 1),
    wordSegment e 4 (2 ^ 32) c.crc.toNat] ++
  (c.dest.segments e ++ [byteSegment CFS.numValidPaths c.path])

end Command

theorem length_segments (e : ByteOrder) (c : Command) :
    ((c.segments e).map Prod.fst).sum = c.dest.inputLength := by
  obtain ⟨m, size, hpos, hle, crc, dest, path⟩ := c
  cases dest <;> rfl

theorem ncard_segments_dest (e : ByteOrder) (d : Destination) :
    ((d.segments e).map fun s => (words s.1 s.2).ncard).prod = d.weight := by
  have hhalf : ∀ r, residues 256 2 r = 128 := fun r => residues_of_dvd (by decide)
  have haddr : ∀ r, residues (256 ^ 8) (2 ^ 31) r = 2 ^ 33 := by
    intro r
    rw [residues_of_dvd (by norm_num)]
    norm_num
  cases d with
  | symbol i =>
    have hi : (i : Nat) < CFS.numValidSymbols := i.isLt
    rw [Destination.segments, List.map_cons, List.map_cons, List.map_nil, List.prod_cons,
      List.prod_cons, List.prod_nil, ncard_byteSegment (by decide), ncard_byteSegment hi, hhalf,
      Nat.mul_one, Destination.weight]
  | direct o =>
    have ho : (o : Nat) < 2 ^ 31 := o.isLt
    rw [Destination.segments, List.map_cons, List.map_cons, List.map_nil, List.prod_cons,
      List.prod_cons, List.prod_nil, ncard_byteSegment (by decide), ncard_wordSegment e ho, hhalf,
      haddr, Nat.mul_one, Destination.weight]

theorem ncard_segments_command (e : ByteOrder) (c : Command) :
    ((c.segments e).map fun s => (words s.1 s.2).ncard).prod = c.weight := by
  have hhalf : ∀ r, residues 256 2 r = 128 := fun r => residues_of_dvd (by decide)
  have hchoice : c.memType.choice.toNat < 2 := by cases c.memType <;> decide
  have hsize : c.numOfBytes.toNat - 1 < c.memType.limit := by
    have hpos := c.numOfBytes_pos
    have hle := c.numOfBytes_le
    omega
  have hcrc : c.crc.toNat < 2 ^ 32 := c.crc.toNat_lt
  have hpath : (c.path : Nat) < CFS.numValidPaths := c.path.isLt
  have hlimit : residues (256 ^ 4) c.memType.limit (c.numOfBytes.toNat - 1) =
      2 ^ 32 / c.memType.limit := by
    rw [residues_of_dvd]
    · norm_num
    · cases c.memType <;> decide
  have hone : residues (256 ^ 4) (2 ^ 32) c.crc.toNat = 1 := by
    rw [residues_of_dvd (by norm_num)]
    norm_num
  rw [Command.segments, List.map_append, List.map_append, List.prod_append, List.prod_append,
    ncard_segments_dest, List.map_cons, List.map_cons, List.map_cons, List.map_nil, List.prod_cons,
    List.prod_cons, List.prod_cons, List.prod_nil, List.map_cons, List.map_nil, List.prod_cons,
    List.prod_nil, ncard_byteSegment hchoice, ncard_wordSegment e hsize, ncard_wordSegment e hcrc,
    ncard_byteSegment hpath, hhalf, hlimit, hone, Nat.mul_one, Nat.mul_one, Nat.mul_one]
  rfl

/-! ## Commands by segments -/

section Input

variable {e : ByteOrder} {data : List UInt8}

theorem byteAt_slice (data : List UInt8) (i : Nat) : byteAt (slice data i 1) 0 = byteAt data i := by
  rw [byteAt, byteAt, List.getD_eq_getElem?_getD, List.getD_eq_getElem?_getD,
    ByteOrder.getElem?_slice, if_pos Nat.one_pos, Nat.add_zero]

theorem toNat_word32 {i : Nat} (h : i + 4 ≤ data.length) :
    (word32 e data i).toNat = e.value (slice data i 4) := by
  have hlt := e.value_lt (slice data i 4)
  rw [ByteOrder.length_slice h] at hlt
  rw [word32, UInt32.toNat_ofNat']
  exact Nat.mod_eq_of_lt hlt

theorem toNat_word64 {i : Nat} (h : i + 8 ≤ data.length) :
    (word64 e data i).toNat = e.value (slice data i 8) := by
  have hlt := e.value_lt (slice data i 8)
  rw [ByteOrder.length_slice h] at hlt
  rw [word64, UInt64.toNat_ofNat']
  exact Nat.mod_eq_of_lt hlt

theorem ofByte_eq_iff_choice (b : UInt8) (m : MemType) :
    MemType.ofByte b = m ↔ b.toNat % 2 = m.choice.toNat := by
  have hm : m.choice.toNat % 2 = m.choice.toNat := by cases m <;> decide
  rw [← hm]
  conv_lhs => rw [← MemType.ofByte_choice m]
  exact MemType.ofByte_eq_iff

/-- The three fields that every input starts with. -/
theorem head_iff (c : Command) (h : sizeofLoadMemFromFileCmd ≤ data.length) :
    ((Command.ofInput e data).memType = c.memType ∧
        (Command.ofInput e data).numOfBytes = c.numOfBytes ∧
        (Command.ofInput e data).crc = c.crc) ↔
      (byteAt data 0).toNat % 2 = c.memType.choice.toNat ∧
        e.value (slice data 1 4) % c.memType.limit = c.numOfBytes.toNat - 1 ∧
        e.value (slice data 5 4) % 2 ^ 32 = c.crc.toNat := by
  have hlen : 120 ≤ data.length := h
  have hsize : MemType.ofByte (byteAt data 0) = c.memType →
      ((Command.ofInput e data).numOfBytes = c.numOfBytes ↔
        e.value (slice data 1 4) % c.memType.limit = c.numOfBytes.toNat - 1) := by
    intro hm
    have hpos := c.numOfBytes_pos
    change word32 e data 1 % maxLoadFileData (MemType.ofByte (byteAt data 0)).code + 1 = _ ↔ _
    rw [hm, ← UInt32.toNat_inj, toNat_mod_limit_add_one, toNat_word32 (by omega)]
    omega
  have hcrc : (Command.ofInput e data).crc = c.crc ↔
      e.value (slice data 5 4) % 2 ^ 32 = c.crc.toNat := by
    have hlt := (word32 e data 5).toNat_lt
    change word32 e data 5 = _ ↔ _
    rw [toNat_word32 (by omega)] at hlt
    rw [← UInt32.toNat_inj, toNat_word32 (by omega), Nat.mod_eq_of_lt hlt]
  rw [← ofByte_eq_iff_choice]
  exact and_congr_right fun hm => and_congr (hsize hm) hcrc

theorem symbol_iff (i : Fin CFS.numValidSymbols)
    (path : Fin CFS.numValidPaths) :
    ((Command.ofInput e data).dest = .symbol i ∧ (Command.ofInput e data).path = path) ↔
      (byteAt data 9).toNat % 2 = 0 ∧ (byteAt data 10).toNat % CFS.numValidSymbols = i ∧
        (byteAt data 11).toNat % CFS.numValidPaths = path := by
  simp only [Command.ofInput, even_iff]
  split
  case isTrue heven =>
    rw [Destination.symbol.injEq, Fin.ext_iff, Fin.ext_iff, and_iff_right heven]
    rfl
  case isFalse hodd => simp [hodd]

theorem direct_iff (h : sizeofLoadMemFromFileCmd ≤ data.length) (o : Fin (2 ^ 31))
    (path : Fin CFS.numValidPaths) :
    ((Command.ofInput e data).dest = .direct o ∧ (Command.ofInput e data).path = path) ↔
      (byteAt data 9).toNat % 2 = 1 ∧ e.value (slice data 10 8) % 2 ^ 31 = o ∧
        (byteAt data 18).toNat % CFS.numValidPaths = path := by
  have hlen : 120 ≤ data.length := h
  simp only [Command.ofInput, even_iff]
  split
  case isTrue heven => simp [heven]
  case isFalse hodd =>
    have hone : (byteAt data 9).toNat % 2 = 1 := by omega
    rw [Destination.direct.injEq, Fin.ext_iff, Fin.ext_iff, and_iff_right hone,
      ← toNat_word64 (by omega)]
    rfl

/-- An input chooses a command by its segments. -/
theorem ofInput_eq_iff_segments (c : Command) (h : sizeofLoadMemFromFileCmd ≤ data.length) :
    Command.ofInput e data = c ↔ Segments (c.segments e) data := by
  have hbyte : ∀ i, byteAt ((data.drop i).take 1) 0 = byteAt data i := byteAt_slice data
  have hfirst : byteAt (data.take 1) 0 = byteAt data 0 := byteAt_slice data 0
  have hhead := head_iff (e := e) c h
  obtain ⟨m, size, hpos, hle, crc, dest, path⟩ := c
  have hfields : Command.ofInput e data = ⟨m, size, hpos, hle, crc, dest, path⟩ ↔
      ((Command.ofInput e data).memType = m ∧ (Command.ofInput e data).numOfBytes = size ∧
        (Command.ofInput e data).crc = crc) ∧
      ((Command.ofInput e data).dest = dest ∧ (Command.ofInput e data).path = path) := by
    rw [Command.ext_iff, and_assoc, and_assoc]
  rw [hfields, hhead]
  cases dest with
  | symbol i =>
    rw [symbol_iff]
    simp only [Command.segments, Destination.segments, byteSegment, wordSegment, List.cons_append,
      List.nil_append, Segments, List.drop_drop, Nat.reduceAdd, hbyte, hfirst, and_true, and_assoc]
    rfl
  | direct o =>
    rw [direct_iff h]
    simp only [Command.segments, Destination.segments, byteSegment, wordSegment, List.cons_append,
      List.nil_append, Segments, List.drop_drop, Nat.reduceAdd, hbyte, hfirst, and_true, and_assoc]
    rfl

end Input

/-- **How often a packet occurs.** The inputs of one length with the packet of a command: what is
read for it has its number of choices, and the rest of the input is free. -/
theorem ncard_loadConstructPacket_eq (t : CFS.Target) (e : ByteOrder) (block : LoadMemFromFileCmd)
    (c : Command) {n : Nat} (hn : sizeofLoadMemFromFileCmd ≤ n) :
    {data | data.length = n ∧
      loadConstructPacket t e (some block) data = some (some (c.toPacket t))}.ncard =
        256 ^ (n - c.dest.inputLength) * c.weight := by
  have hlen : c.dest.inputLength + (n - c.dest.inputLength) = n := by
    have hle : 120 ≤ n := hn
    cases c.dest <;> simp only [Destination.inputLength] <;> omega
  have hcard : Fintype.card UInt8 = 256 := FinEnum.card_eq_fintypeCard.symm
  have hcount := ncard_segments (c.segments e) (n - c.dest.inputLength)
  rw [length_segments, ncard_segments_command, hlen, hcard] at hcount
  rw [Nat.mul_comm, ← hcount]
  refine congrArg _ (words_congr fun data hdata => ?_)
  have hle : sizeofLoadMemFromFileCmd ≤ data.length := by rwa [hdata]
  rw [loadConstructPacket_eq t e block hle, Option.some.injEq, Option.some.injEq,
    Command.toPacket_inj]
  exact ofInput_eq_iff_segments c hle

/-- The inputs of packet length for a load of 1024 bytes below `/cf/upload/` at `MM_AppData`. -/
theorem ncard_loadConstructPacket_appData :
    let c : Command := 
      ⟨.ram, 1024, by decide, by decide, 0, .symbol ⟨5, by decide⟩, ⟨2, by decide⟩⟩
    {data | data.length = 120 ∧
      loadConstructPacket .default .little (some .cleared) data =
        some (some (c.toPacket .default))}.ncard =
      256 ^ (120 - 12) * c.weight :=
  ncard_loadConstructPacket_eq .default .little .cleared _ (Nat.le_refl 120)

end MM
