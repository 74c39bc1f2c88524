-- SUMMARY: Inputs between hosts of different byte order: turning the words around keeps the packet and the outcome.
import CfsMmFuzzer.Load.Decoder

/-!
# Portability of inputs

The harness copies words out of its input, so one input means different commands
on hosts of different byte order. `swapWords` turns the words around that the
constructor reads, and takes an input of one host to an input of the other with
the same packet.
-/

namespace MM

open ByteOrder (slice word32 word64 reverseAt)

/-- The input with each word that the constructor reads in the other byte order. Whether there is an
address to read is for the choice byte to say. -/
def swapWords (data : List UInt8) : List UInt8 :=
  if data.length < sizeofLoadMemFromFileCmd then data
  else
    let data := reverseAt (reverseAt data 1 4) 5 4
    if byteAt data 9 % 2 = 0 then data else reverseAt data 10 8

section SwapWords

variable {data : List UInt8}

/-! ## What turning a word around keeps -/

theorem byteAt_reverseAt {i w j : Nat} (h : i + w ≤ data.length) (hj : j < i ∨ i + w ≤ j) :
    byteAt (reverseAt data i w) j = byteAt data j := by
  have hindex : ByteOrder.reverseIndex i w j = j := if_neg (by omega)
  rw [byteAt, byteAt, List.getD_eq_getElem?_getD, List.getD_eq_getElem?_getD,
    ByteOrder.getElem?_reverseAt h, hindex]

theorem word32_reverseAt {i : Nat} (h : i + 4 ≤ data.length) :
    word32 .little (reverseAt data i 4) i = word32 .big data i := by
  rw [word32, word32, ByteOrder.slice_reverseAt h, ByteOrder.value_reverse]

theorem word64_reverseAt {i : Nat} (h : i + 8 ≤ data.length) :
    word64 .little (reverseAt data i 8) i = word64 .big data i := by
  rw [word64, word64, ByteOrder.slice_reverseAt h, ByteOrder.value_reverse]

theorem word32_reverseAt_of_disjoint {e : ByteOrder} {i w k : Nat} (h : i + w ≤ data.length)
    (hdisj : k + 4 ≤ i ∨ i + w ≤ k) : word32 e (reverseAt data i w) k = word32 e data k := by
  rw [word32, word32, ByteOrder.slice_reverseAt_of_disjoint h hdisj]

theorem word64_reverseAt_of_disjoint {e : ByteOrder} {i w k : Nat} (h : i + w ≤ data.length)
    (hdisj : k + 8 ≤ i ∨ i + w ≤ k) : word64 e (reverseAt data i w) k = word64 e data k := by
  rw [word64, word64, ByteOrder.slice_reverseAt_of_disjoint h hdisj]

/-! ## Turning all words around -/

/-- The size and the CRC turned around. -/
def swapHead (data : List UInt8) : List UInt8 := reverseAt (reverseAt data 1 4) 5 4

theorem length_swapHead (h : sizeofLoadMemFromFileCmd ≤ data.length) :
    (swapHead data).length = data.length := by
  have hlen : 120 ≤ data.length := h
  have hone : (reverseAt data 1 4).length = data.length := ByteOrder.length_reverseAt (by omega)
  rw [swapHead, ByteOrder.length_reverseAt (by omega), hone]

/-- The head of an input leaves all bytes but those of its two words. -/
theorem byteAt_swapHead (h : sizeofLoadMemFromFileCmd ≤ data.length) {j : Nat}
    (hj : j = 0 ∨ 9 ≤ j) : byteAt (swapHead data) j = byteAt data j := by
  have hlen : 120 ≤ data.length := h
  have hone : (reverseAt data 1 4).length = data.length := ByteOrder.length_reverseAt (by omega)
  rw [swapHead, byteAt_reverseAt (by omega) (by omega), byteAt_reverseAt (by omega) (by omega)]

theorem word32_swapHead (h : sizeofLoadMemFromFileCmd ≤ data.length) :
    word32 .little (swapHead data) 1 = word32 .big data 1 ∧
      word32 .little (swapHead data) 5 = word32 .big data 5 := by
  have hlen : 120 ≤ data.length := h
  have hone : (reverseAt data 1 4).length = data.length := ByteOrder.length_reverseAt (by omega)
  constructor
  · rw [swapHead, word32_reverseAt_of_disjoint (by omega) (by omega), word32_reverseAt (by omega)]
  · rw [swapHead, word32_reverseAt (by omega), word32_reverseAt_of_disjoint (by omega) (by omega)]

theorem word64_swapHead (h : sizeofLoadMemFromFileCmd ≤ data.length) :
    word64 .big (swapHead data) 10 = word64 .big data 10 := by
  have hlen : 120 ≤ data.length := h
  have hone : (reverseAt data 1 4).length = data.length := ByteOrder.length_reverseAt (by omega)
  rw [swapHead, word64_reverseAt_of_disjoint (by omega) (by omega),
    word64_reverseAt_of_disjoint (by omega) (by omega)]

theorem swapHead_swapHead (h : sizeofLoadMemFromFileCmd ≤ data.length) :
    swapHead (swapHead data) = data := by
  have hlen : 120 ≤ data.length := h
  have hone : (reverseAt data 1 4).length = data.length := ByteOrder.length_reverseAt (by omega)
  have htwo := length_swapHead h
  have hcomm : swapHead (swapHead data) =
      reverseAt (reverseAt (reverseAt (reverseAt data 1 4) 5 4) 5 4) 1 4 :=
    ByteOrder.reverseAt_comm (by omega) (by omega) (by decide)
  rw [swapHead] at htwo
  rw [hcomm, ByteOrder.reverseAt_reverseAt (by omega), ByteOrder.reverseAt_reverseAt (by omega)]

/-- The address does not meet the head. -/
theorem swapHead_reverseAt (h : sizeofLoadMemFromFileCmd ≤ data.length) :
    swapHead (reverseAt data 10 8) = reverseAt (swapHead data) 10 8 := by
  have hlen : 120 ≤ data.length := h
  have hone : (reverseAt data 1 4).length = data.length := ByteOrder.length_reverseAt (by omega)
  have hfirst : reverseAt (reverseAt data 1 4) 10 8 = reverseAt (reverseAt data 10 8) 1 4 :=
    ByteOrder.reverseAt_comm (by omega) (by omega) (by decide)
  have hsecond : reverseAt (swapHead data) 10 8 = reverseAt (reverseAt (reverseAt data 1 4) 10 8) 5 4 :=
    ByteOrder.reverseAt_comm (by omega) (by omega) (by decide)
  rw [hsecond, hfirst, swapHead]

theorem swapWords_of_le (h : sizeofLoadMemFromFileCmd ≤ data.length) :
    swapWords data =
      if byteAt data 9 % 2 = 0 then swapHead data else reverseAt (swapHead data) 10 8 := by
  unfold swapWords
  rw [if_neg (Nat.not_lt.mpr h)]
  change (if byteAt (swapHead data) 9 % 2 = 0 then _ else _) = _
  rw [byteAt_swapHead h (.inr (Nat.le_refl 9))]
  rfl

@[simp] theorem length_swapWords (data : List UInt8) : (swapWords data).length = data.length := by
  obtain h | h := Nat.lt_or_ge data.length sizeofLoadMemFromFileCmd
  · rw [swapWords, if_pos h]
  · have hlen : 120 ≤ data.length := h
    rw [swapWords_of_le h]
    split
    · exact length_swapHead h
    · rw [ByteOrder.length_reverseAt (by rw [length_swapHead h]; omega), length_swapHead h]

/-- Turned around twice, an input is what it was. -/
theorem swapWords_swapWords (data : List UInt8) : swapWords (swapWords data) = data := by
  obtain h | h := Nat.lt_or_ge data.length sizeofLoadMemFromFileCmd
  · have hself : swapWords data = data := if_pos h
    rw [hself, hself]
  · have hlen : 120 ≤ data.length := h
    have hhead := length_swapHead h
    have hlen' : sizeofLoadMemFromFileCmd ≤ (swapWords data).length := by rwa [length_swapWords]
    rw [swapWords_of_le hlen', swapWords_of_le h]
    split_ifs with heven heven' heven'
    · exact swapHead_swapHead h
    · rw [byteAt_swapHead h (.inr (Nat.le_refl 9))] at heven'
      exact absurd heven heven'
    · rw [byteAt_reverseAt (by omega) (.inl (by decide)),
        byteAt_swapHead h (.inr (Nat.le_refl 9))] at heven'
      exact absurd heven' heven
    · rw [swapHead_reverseAt (by omega), swapHead_swapHead h,
        ByteOrder.reverseAt_reverseAt (by omega)]

/-- **One command on both hosts.** -/
theorem ofInput_swapWords (h : sizeofLoadMemFromFileCmd ≤ data.length) :
    Command.ofInput .little (swapWords data) = Command.ofInput .big data := by
  have hlen : 120 ≤ data.length := h
  have hhead := length_swapHead h
  obtain ⟨hsize, hcrc⟩ := word32_swapHead h
  have hbytes : ∀ j, j = 0 ∨ j = 9 ∨ 18 ≤ j → byteAt (swapWords data) j = byteAt data j := by
    intro j hj
    rw [swapWords_of_le h]
    split
    · exact byteAt_swapHead h (by omega)
    · rw [byteAt_reverseAt (by omega) (by omega), byteAt_swapHead h (by omega)]
  have hwords : word32 .little (swapWords data) 1 = word32 .big data 1 ∧
      word32 .little (swapWords data) 5 = word32 .big data 5 := by
    rw [swapWords_of_le h]
    split
    · exact ⟨hsize, hcrc⟩
    · rw [word32_reverseAt_of_disjoint (by omega) (by omega),
        word32_reverseAt_of_disjoint (by omega) (by omega)]
      exact ⟨hsize, hcrc⟩
  refine Command.ext ?_ ?_ ?_ ?_ ?_ <;> simp only [Command.ofInput]
  · rw [hbytes 0 (.inl rfl)]
  · rw [hbytes 0 (.inl rfl), hwords.1]
  · exact hwords.2
  · rw [hbytes 9 (.inr (.inl rfl)), swapWords_of_le h]
    split
    case isTrue heven => rw [byteAt_swapHead h (by omega)]
    case isFalse => rw [word64_reverseAt (by omega), word64_swapHead h]
  · rw [hbytes 9 (.inr (.inl rfl))]
    split
    case isTrue heven => rw [swapWords_of_le h, if_pos heven, byteAt_swapHead h (by omega)]
    case isFalse => rw [hbytes 18 (by omega)]

end SwapWords

/-! ## The harness on both hosts -/

/-- **Portable inputs.** A corpus of a host of one byte order serves on a host of the other: with the
words turned around, which loses nothing, every input gives the same packet and the same outcome. -/
theorem portable_swapWords (t : CFS.Target) (block : Option LoadMemFromFileCmd)
    (data : List UInt8) :
    swapWords (swapWords data) = data ∧ (swapWords data).length = data.length ∧
      loadConstructPacket t .little block (swapWords data) =
        loadConstructPacket t .big block data ∧
      fuzzerTestOneInput t .little block (swapWords data) = fuzzerTestOneInput t .big block data := by
  have hpacket : loadConstructPacket t .little block (swapWords data) =
      loadConstructPacket t .big block data := by
    obtain h | h := Nat.lt_or_ge data.length sizeofLoadMemFromFileCmd
    · unfold loadConstructPacket
      rw [if_pos h, if_pos (by rwa [length_swapWords])]
    · cases block with
      | none =>
        unfold loadConstructPacket
        rw [if_neg (by rw [length_swapWords]; omega), if_neg (by omega)]
      | some block =>
        rw [loadConstructPacket_eq t .little block (by rwa [length_swapWords]),
          loadConstructPacket_eq t .big block h, ofInput_swapWords h]
  refine ⟨swapWords_swapWords data, length_swapWords data, hpacket, ?_⟩
  unfold fuzzerTestOneInput
  rw [length_swapWords, hpacket]

end MM
