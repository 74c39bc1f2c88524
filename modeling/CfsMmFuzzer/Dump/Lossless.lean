-- SUMMARY: The hex dump as lines of offset, hex area and text, from which every byte can be read back.
import CfsMmFuzzer.Common.HexDump

/-!
# The hex dump loses nothing

`lineOf` is line `k` of a dump as a function of its block of at most sixteen
bytes. The loops print exactly these lines (`hexDumpLoop_eq`), and `groups`
reads the block back from the hex area, full or padded.
-/

namespace CFS

open CString (ascii)

/-! ## Lines -/

/-- A line between the prefix and the line break. -/
structure DumpLine where
  offset : List UInt8
  hex    : List UInt8
  text   : List UInt8

def newline : UInt8 := 0x0A

def blank : UInt8 := 0x20

def DumpLine.print (pfx : List UInt8) (line : DumpLine) : List UInt8 :=
  pfx ++ line.offset ++ ascii ": " ++ line.hex ++ ascii " " ++ line.text

/-- The characters of the prefix, none for `NULL`. -/
def prefixChars (pfx : Option CString) : List UInt8 := (pfx.map (·.chars)).getD []

/-- The bytes of line `k`. -/
def blockAt (bytes : List UInt8) (k : Nat) : List UInt8 := (bytes.drop (16 * k)).take 16

/-- One byte in the hex area. -/
def hexCell (byte : UInt8) : List UInt8 := Hex.numeral 2 byte.toNat ++ [blank]

/-- The hex area of a block, padded to `width` cells. -/
def hexArea (width : Nat) (block : List UInt8) : List UInt8 :=
  block.flatMap hexCell ++ List.replicate (3 * (width - block.length)) blank

def lineOf (bytes : List UInt8) (k : Nat) : DumpLine where
  offset := Hex.numeral 4 (16 * k)
  hex := hexArea 16 (blockAt bytes k)
  text := (blockAt bytes k).map printable

/-- The bytes of a hex area: for each one two digits and a blank, and behind the last one nothing
but blanks. Anything else has no reading. -/
def groups : List UInt8 → Option (List UInt8)
  | [] => some []
  | hi :: lo :: sep :: rest =>
      if Hex.IsDigit hi ∧ Hex.IsDigit lo ∧ sep = blank then
        (groups rest).map (UInt8.ofNat (Hex.read [hi, lo]) :: ·)
      else if (hi :: lo :: sep :: rest).all (· = blank) then some []
      else none
  | _ => none

/-! ## The hex area -/

theorem exists_hexCell_eq (byte : UInt8) :
    ∃ hi lo, hexCell byte = [hi, lo, blank] ∧ Hex.IsDigit hi ∧ Hex.IsDigit lo ∧
      Hex.read [hi, lo] = byte.toNat := by
  obtain ⟨hi, lo, hnum⟩ := List.length_eq_two.mp (Hex.length_numeral_byte byte)
  refine ⟨hi, lo, ?_, ?_, ?_, ?_⟩
  · rw [hexCell, hnum]
    rfl
  · exact Hex.isDigit_of_mem_numeral (by rw [hnum]; exact List.mem_cons_self)
  · exact Hex.isDigit_of_mem_numeral (by rw [hnum]; exact List.mem_cons_of_mem _ List.mem_cons_self)
  · rw [← hnum, Hex.read_numeral]

theorem hexArea_cons (width : Nat) (byte : UInt8) (block : List UInt8) :
    hexArea (width + 1) (byte :: block) = hexCell byte ++ hexArea width block := by
  simp [hexArea]

theorem hexArea_nil_succ (width : Nat) :
    hexArea (width + 1) [] = ascii "   " ++ hexArea width [] := by
  have hblanks : ascii "   " = List.replicate 3 blank := rfl
  rw [hblanks]
  simp only [hexArea, List.flatMap_nil, List.nil_append, List.length_nil, Nat.sub_zero,
    List.replicate_append_replicate]
  congr 1
  omega

theorem length_hexArea {width : Nat} {block : List UInt8} (h : block.length ≤ width) :
    (hexArea width block).length = 3 * width := by
  induction block generalizing width with
  | nil => simp [hexArea]
  | cons byte block ih =>
    cases width with
    | zero => exact absurd h (Nat.not_succ_le_zero _)
    | succ width =>
      obtain ⟨hi, lo, hcell, -⟩ := exists_hexCell_eq byte
      rw [hexArea_cons, hcell, List.length_append, ih (Nat.le_of_succ_le_succ h)]
      simp only [List.length_cons, List.length_nil]
      omega

/-- Cell `j` of a hex area: that of byte `j`, or blanks. -/
theorem cell_hexArea {width : Nat} {block : List UInt8} (h : block.length ≤ width) {j : Nat}
    (hj : j < width) :
    ((hexArea width block).drop (3 * j)).take 3 = (block[j]?.map hexCell).getD (ascii "   ") := by
  induction width generalizing block j with
  | zero => exact absurd hj (Nat.not_lt_zero j)
  | succ width ih =>
    -- the first cell, and the area behind it
    obtain ⟨cell, rest, hlen, harea, hfirst, htail⟩ : ∃ cell rest, cell.length = 3 ∧
        hexArea (width + 1) block = cell ++ hexArea width rest ∧
        cell = (block[0]?.map hexCell).getD (ascii "   ") ∧
        rest.length ≤ width ∧ ∀ j, rest[j]? = block[j + 1]? := by
      cases block with
      | nil => exact ⟨_, [], rfl, hexArea_nil_succ width, rfl, width.zero_le, fun _ => rfl⟩
      | cons byte block =>
        obtain ⟨hi, lo, hcell, -⟩ := exists_hexCell_eq byte
        exact ⟨_, block, by rw [hcell]; rfl, hexArea_cons width byte block, rfl,
          Nat.le_of_succ_le_succ h, fun _ => rfl⟩
    cases j with
    | zero => rw [harea, ← hfirst, Nat.mul_zero, List.drop_zero, List.take_left' hlen]
    | succ j =>
      rw [harea, Nat.mul_succ, Nat.add_comm, ← List.drop_drop, List.drop_left' hlen,
        ih htail.1 (Nat.lt_of_succ_lt_succ hj), htail.2]

/-- The bytes of a block are read back from its hex area. -/
theorem groups_hexArea {width : Nat} {block : List UInt8} (h : block.length ≤ width) :
    groups (hexArea width block) = some block := by
  induction block generalizing width with
  | nil =>
    cases width with
    | zero => rfl
    | succ width =>
      have hblanks : hexArea (width + 1) [] =
          blank :: blank :: blank :: List.replicate (3 * width) blank := by
        rw [hexArea_nil_succ]
        rfl
      have hdigit : ¬ (Hex.IsDigit blank ∧ Hex.IsDigit blank ∧ blank = blank) := by decide
      rw [hblanks, groups, if_neg hdigit, if_pos (by simp)]
  | cons byte block ih =>
    cases width with
    | zero => exact absurd h (Nat.not_succ_le_zero _)
    | succ width =>
      obtain ⟨hi, lo, hcell, hhi, hlo, hread⟩ := exists_hexCell_eq byte
      have hdigit : Hex.IsDigit hi ∧ Hex.IsDigit lo ∧ blank = blank := ⟨hhi, hlo, rfl⟩
      rw [hexArea_cons, hcell, List.cons_append, List.cons_append, List.cons_append,
        List.nil_append, groups, if_pos hdigit, ih (Nat.le_of_succ_le_succ h), Option.map_some,
        hread, UInt8.ofNat_toNat]

theorem length_blockAt (bytes : List UInt8) (k : Nat) :
    (blockAt bytes k).length = min 16 (bytes.length - 16 * k) := by
  rw [blockAt, List.length_take, List.length_drop]

theorem length_blockAt_le (bytes : List UInt8) (k : Nat) : (blockAt bytes k).length ≤ 16 := by
  rw [length_blockAt]
  exact Nat.min_le_left _ _

/-- The blocks are the bytes. -/
theorem flatMap_blockAt (bytes : List UInt8) (m : Nat) :
    (List.range m).flatMap (blockAt bytes) = bytes.take (16 * m) := by
  induction m with
  | zero => rfl
  | succ m ih =>
    rw [List.range_succ, List.flatMap_append, ih, List.flatMap_singleton, Nat.mul_succ,
      List.take_add]
    rfl

/-! ## The loops -/

section Loops

variable {bytes : List UInt8}

/-- The test of the outer loop, where the counter has not wrapped. -/
theorem ofNat_lt_iff (hlen : bytes.length < 2 ^ 64) {i : Nat} (h : i < 2 ^ 64) :
    UInt64.ofNat i < UInt64.ofNat bytes.length ↔ i < bytes.length := by
  rw [UInt64.lt_iff_toNat_lt, UInt64.toNat_ofNat_of_lt' h, UInt64.toNat_ofNat_of_lt' hlen]

/-- The test of both inner loops. -/
theorem ofNat_add_lt_iff (hlen : bytes.length < 2 ^ 64) {i j : Nat} (h : i + j < 2 ^ 64) :
    UInt64.ofNat i + UInt64.ofNat j < UInt64.ofNat bytes.length ↔ i + j < bytes.length := by
  rw [← UInt64.ofNat_add]
  exact ofNat_lt_iff hlen h

theorem getElem?_ofNat_add {i j : Nat} (h : i + j < 2 ^ 64) (hin : i + j < bytes.length) :
    bytes[(UInt64.ofNat i + UInt64.ofNat j).toNat]? = some bytes[i + j] := by
  rw [← UInt64.ofNat_add, UInt64.toNat_ofNat_of_lt' h]
  exact List.getElem?_eq_getElem hin

theorem hexCells_eq (hlen : bytes.length < 2 ^ 64) {i j left : Nat} (h : i + j + left < 2 ^ 64) :
    hexCells bytes (UInt64.ofNat bytes.length) (UInt64.ofNat i) left (UInt64.ofNat j) =
      some (hexArea left ((bytes.drop (i + j)).take left)) := by
  induction left generalizing j with
  | zero => rfl
  | succ left ih =>
    have hnext := ih (show i + (j + 1) + left < 2 ^ 64 by omega)
    rw [UInt64.ofNat_add] at hnext
    unfold hexCells
    rw [show (1 : UInt64) = UInt64.ofNat 1 from rfl, hnext]
    by_cases hin : i + j < bytes.length
    · rw [if_pos ((ofNat_add_lt_iff hlen (by omega)).mpr hin), getElem?_ofNat_add (by omega) hin,
        List.drop_eq_getElem_cons hin, List.take_succ_cons, hexArea_cons]
      rfl
    · rw [if_neg (mt (ofNat_add_lt_iff hlen (by omega)).mp hin),
        List.drop_eq_nil_of_le (by omega), List.drop_eq_nil_of_le (by omega), List.take_nil,
        List.take_nil, hexArea_nil_succ]
      rfl

theorem asciiCells_eq (hlen : bytes.length < 2 ^ 64) {i j left : Nat} (h : i + j + left < 2 ^ 64) :
    asciiCells bytes (UInt64.ofNat bytes.length) (UInt64.ofNat i) left (UInt64.ofNat j) =
      some (((bytes.drop (i + j)).take left).map printable) := by
  induction left generalizing j with
  | zero => rfl
  | succ left ih =>
    have hnext := ih (show i + (j + 1) + left < 2 ^ 64 by omega)
    rw [UInt64.ofNat_add] at hnext
    unfold asciiCells
    by_cases hin : i + j < bytes.length
    · rw [if_pos ((ofNat_add_lt_iff hlen (by omega)).mpr hin), getElem?_ofNat_add (by omega) hin,
        List.drop_eq_getElem_cons hin, List.take_succ_cons,
        show (1 : UInt64) = UInt64.ofNat 1 from rfl, hnext]
      rfl
    · rw [if_neg (mt (ofNat_add_lt_iff hlen (by omega)).mp hin),
        List.drop_eq_nil_of_le (by omega), List.take_nil]
      rfl

theorem lineHead_eq (pfx : Option CString) {k : Nat} (h : 16 * k < 2 ^ 64) :
    lineHead pfx (UInt64.ofNat (16 * k)) =
      prefixChars pfx ++ Hex.numeral 4 (16 * k) ++ ascii ": " := by
  have hk : (UInt64.ofNat (16 * k)).toNat = 16 * k := UInt64.toNat_ofNat_of_lt' h
  cases pfx with
  | none =>
    rw [lineHead, hk]
    rfl
  | some p =>
    rw [lineHead, hk]
    rfl

/-- What is printed for line `k`. -/
def printed (pfx : Option CString) (bytes : List UInt8) (k : Nat) : List UInt8 :=
  (lineOf bytes k).print (prefixChars pfx) ++ [newline]

theorem hexDumpLine_eq (hlen : bytes.length < 2 ^ 64) (pfx : Option CString) {k : Nat}
    (h : 16 * k + 16 < 2 ^ 64) :
    hexDumpLine bytes (UInt64.ofNat bytes.length) pfx (UInt64.ofNat (16 * k)) =
      some (printed pfx bytes k) := by
  have hhex := hexCells_eq hlen (show 16 * k + 0 + 16 < 2 ^ 64 by omega)
  have htext := asciiCells_eq hlen (show 16 * k + 0 + 16 < 2 ^ 64 by omega)
  unfold hexDumpLine
  rw [show (0 : UInt64) = UInt64.ofNat 0 from rfl, hhex, htext, lineHead_eq pfx (by omega)]
  rfl

/-- From line `k` on, `left` lines are printed. -/
theorem hexDumpLoop_eq (hmax : bytes.length ≤ 2 ^ 64 - 16) (pfx : Option CString)
    {k left fuel : Nat} (hlines : k + left = (bytes.length + 15) / 16) (hfuel : left < fuel) :
    hexDumpLoop bytes (UInt64.ofNat bytes.length) pfx fuel (UInt64.ofNat (16 * k)) =
      some ((List.range' k left).flatMap (printed pfx bytes)) := by
  have hlen : bytes.length < 2 ^ 64 := by omega
  induction left generalizing k fuel with
  | zero =>
    obtain ⟨fuel, rfl⟩ := Nat.exists_eq_add_one.mpr hfuel
    have hend : ¬ UInt64.ofNat (16 * k) < UInt64.ofNat bytes.length := by
      rw [ofNat_lt_iff hlen (by omega)]
      omega
    unfold hexDumpLoop
    rw [if_neg hend]
    rfl
  | succ left ih =>
    obtain ⟨fuel, rfl⟩ := Nat.exists_eq_add_one.mpr (Nat.zero_lt_of_lt hfuel)
    have hmore : UInt64.ofNat (16 * k) < UInt64.ofNat bytes.length := by
      rw [ofNat_lt_iff hlen (by omega)]
      omega
    have hnext : UInt64.ofNat (16 * k) + 16 = UInt64.ofNat (16 * (k + 1)) := by
      rw [Nat.mul_succ, UInt64.ofNat_add]
      rfl
    have hrest := ih (show k + 1 + left = (bytes.length + 15) / 16 by omega)
      (Nat.lt_of_succ_lt_succ hfuel)
    unfold hexDumpLoop
    rw [if_pos hmore, hexDumpLine_eq hlen pfx (by omega), hnext, hrest, List.range'_succ]
    rfl

end Loops

/-! ## The lines -/

/-- The three characters of a cell: two upper-case digits of the byte and a blank, or three
blanks where there is no byte. -/
def IsCell (cell : List UInt8) : Option UInt8 → Prop
  | some byte => ∃ hi lo, cell = [hi, lo, 0x20] ∧ Hex.IsDigit hi ∧ Hex.IsDigit lo ∧
      16 * Hex.value hi + Hex.value lo = byte.toNat
  | none => cell = [0x20, 0x20, 0x20]

/-- Line `k` of the dump of `bytes`: the offset `16 * k` in upper-case digits, zeros in front up to
four of them; a hex area of sixteen cells; and for each byte of the block a text character, the
byte itself from 32 to 126 and a full stop otherwise. -/
structure IsLine (bytes : List UInt8) (k : Nat) (line : DumpLine) : Prop where
  offset_digits : ∀ c ∈ line.offset, Hex.IsDigit c
  offset_width : line.offset.length = max 4 (Nat.digits 16 (16 * k)).length
  offset_value : Hex.read line.offset = 16 * k
  hex_width : line.hex.length = 48
  hex : ∀ j < 16, IsCell ((line.hex.drop (3 * j)).take 3) bytes[16 * k + j]?
  text_length : line.text.length = min 16 (bytes.length - 16 * k)
  text : ∀ j < 16, line.text[j]? =
    bytes[16 * k + j]?.map fun byte => if 32 ≤ byte ∧ byte ≤ 126 then byte else 0x2E

theorem isCell_hexCell (byte : Option UInt8) :
    IsCell ((byte.map hexCell).getD (ascii "   ")) byte := by
  cases byte with
  | none => rfl
  | some byte =>
    obtain ⟨hi, lo, hcell, hhi, hlo, hread⟩ := exists_hexCell_eq byte
    refine ⟨hi, lo, hcell, hhi, hlo, ?_⟩
    rw [← hread]
    simp [Hex.read, Nat.ofDigits]
    omega

theorem getElem?_blockAt (bytes : List UInt8) (k : Nat) {j : Nat} (hj : j < 16) :
    (blockAt bytes k)[j]? = bytes[16 * k + j]? := by
  rw [blockAt, List.getElem?_take_of_lt hj, List.getElem?_drop]

theorem isLine_lineOf (bytes : List UInt8) (k : Nat) : IsLine bytes k (lineOf bytes k) where
  offset_digits := fun _ hc => Hex.isDigit_of_mem_numeral hc
  offset_width := Hex.length_numeral 4 (16 * k)
  offset_value := Hex.read_numeral 4 (16 * k)
  hex_width := length_hexArea (length_blockAt_le bytes k)
  hex := by
    intro j hj
    rw [lineOf, cell_hexArea (length_blockAt_le bytes k) hj, getElem?_blockAt bytes k hj]
    exact isCell_hexCell _
  text_length := by
    rw [lineOf, List.length_map, length_blockAt]
  text := by
    intro j hj
    rw [lineOf, List.getElem?_map, getElem?_blockAt bytes k hj]
    rfl

/-! ## The dump -/

theorem isDigit_ne_newline {c : UInt8} (h : Hex.IsDigit c) : c ≠ newline := by
  intro heq
  rw [heq] at h
  exact absurd h (by decide)

theorem printable_ne_newline (c : UInt8) : printable c ≠ newline := by
  unfold printable
  split
  case isTrue h =>
    intro heq
    rw [heq] at h
    exact absurd h (by decide)
  case isFalse => decide

theorem newline_not_mem_hexArea (width : Nat) (block : List UInt8) :
    newline ∉ hexArea width block := by
  intro hmem
  obtain hcells | hblanks := List.mem_append.mp hmem
  · obtain ⟨byte, -, hcell⟩ := List.mem_flatMap.mp hcells
    obtain hdigit | hblank := List.mem_append.mp hcell
    · exact isDigit_ne_newline (Hex.isDigit_of_mem_numeral hdigit) rfl
    · exact absurd (List.mem_singleton.mp hblank) (by decide)
  · exact absurd (List.eq_of_mem_replicate hblanks) (by decide)

/-- The only line breaks are those between the lines. -/
theorem newline_not_mem_print (bytes : List UInt8) {pfx : List UInt8} (hpfx : newline ∉ pfx)
    (k : Nat) : newline ∉ (lineOf bytes k).print pfx := by
  have hoffset : newline ∉ (lineOf bytes k).offset :=
    fun hmem => isDigit_ne_newline (Hex.isDigit_of_mem_numeral hmem) rfl
  have htext : newline ∉ (lineOf bytes k).text := by
    intro hmem
    obtain ⟨c, -, hc⟩ := List.mem_map.mp hmem
    exact printable_ne_newline c hc
  have hcolon : newline ∉ ascii ": " := by decide
  have hspace : newline ∉ ascii " " := by decide
  have hhex : newline ∉ (lineOf bytes k).hex := newline_not_mem_hexArea 16 (blockAt bytes k)
  unfold DumpLine.print
  simp only [List.mem_append, hpfx, hoffset, hcolon, hhex, hspace, htext, or_self,
    not_false_eq_true]

/-- The lines of the dump of `bytes`: there is one for each sixteen bytes, begun
or full; they are what is printed, given enough fuel, and the hex areas of all
of them have readings, which together are the bytes. -/
structure IsDump (bytes : List UInt8) (pfx : Option CString) (lines : List DumpLine) : Prop where
  prints : ∀ fuel, lines.length < fuel →
    hexDump fuel (some bytes) (UInt64.ofNat bytes.length) pfx =
      some (lines.flatMap fun line => line.print (prefixChars pfx) ++ [newline])
  count : lines.length = (bytes.length + 15) / 16
  unbroken : ∀ line ∈ lines, newline ∉ line.print (prefixChars pfx)
  line : ∀ (k : Nat) (h : k < lines.length), IsLine bytes k lines[k]
  decode : (lines.mapM fun line => groups line.hex).map List.flatten = some bytes

/-- **The hex dump loses nothing.** -/
theorem exists_isDump_hexDump (bytes : List UInt8) (pfx : Option CString)
    (hpos : 1 ≤ bytes.length) (hmax : bytes.length ≤ 2 ^ 64 - 16)
    (hpfx : newline ∉ prefixChars pfx) : ∃ lines, IsDump bytes pfx lines := by
  refine ⟨(List.range ((bytes.length + 15) / 16)).map (lineOf bytes), ?_⟩
  constructor
  case prints =>
    intro fuel hfuel
    rw [List.length_map, List.length_range] at hfuel
    have hlen : bytes.length < 2 ^ 64 := by omega
    have hzero : ¬ UInt64.ofNat bytes.length = 0 := by
      intro hzero
      have hnat := congrArg UInt64.toNat hzero
      rw [UInt64.toNat_ofNat_of_lt' hlen, UInt64.toNat_zero] at hnat
      omega
    have hstart : hexDump fuel (some bytes) (UInt64.ofNat bytes.length) pfx =
        hexDumpLoop bytes (UInt64.ofNat bytes.length) pfx fuel (UInt64.ofNat (16 * 0)) :=
      if_neg hzero
    rw [hstart, hexDumpLoop_eq hmax pfx (Nat.zero_add _) hfuel, List.flatMap_map,
      List.range_eq_range']
    rfl
  case count => rw [List.length_map, List.length_range]
  case unbroken =>
    intro line hline
    obtain ⟨k, -, rfl⟩ := List.mem_map.mp hline
    exact newline_not_mem_print bytes hpfx k
  case line =>
    intro k h
    rw [List.getElem_map, List.getElem_range]
    exact isLine_lineOf bytes k
  case decode =>
    have hgroups : ∀ k, groups (lineOf bytes k).hex = pure (blockAt bytes k) :=
      fun k => groups_hexArea (length_blockAt_le bytes k)
    have hread : ((List.range ((bytes.length + 15) / 16)).map (lineOf bytes)).mapM
        (fun line => groups line.hex) =
          pure ((List.range ((bytes.length + 15) / 16)).map (blockAt bytes)) := by
      rw [← List.mapM_pure, List.mapM_map]
      exact congrArg (List.mapM · _) (funext hgroups)
    rw [hread, Option.pure_def, Option.map_some, ← List.flatMap_def, flatMap_blockAt,
      List.take_of_length_le (by omega)]

/-- A letter and a line break, behind a prefix. -/
theorem exists_isDump_hexDump_two_bytes :
    ∃ lines, IsDump [0x41, 0x0A] (some ⟨ascii "> ", by decide⟩) lines :=
  exists_isDump_hexDump [0x41, 0x0A] (some ⟨ascii "> ", by decide⟩) (by decide) (by decide)
    (by decide)

-- the text of a short line is cut, its hex area is not
example : hexDump 2 (some [0x41, 0x0A]) 2 none =
    some (ascii "0000: 41 0A " ++ List.replicate 42 blank ++ ascii " A.\n") := by
  decide +kernel

/-- The bound is sharp: above it the counter wraps before it reaches the end,
and the loop does not return. -/
theorem hexDumpLoop_eq_none {bytes : List UInt8} {length : UInt64}
    (h : 2 ^ 64 - 16 < length.toNat) (pfx : Option CString) (fuel : Nat) {i : UInt64}
    (hi : i.toNat % 16 = 0) : hexDumpLoop bytes length pfx fuel i = none := by
  induction fuel generalizing i with
  | zero => rfl
  | succ fuel ih =>
    have hlt := i.toNat_lt
    have hmore : i < length := by
      rw [UInt64.lt_iff_toNat_lt]
      omega
    have hnext : (i + 16).toNat % 16 = 0 := by
      have hsixteen : (16 : UInt64).toNat = 16 := rfl
      rw [UInt64.toNat_add, hsixteen]
      omega
    unfold hexDumpLoop
    rw [if_pos hmore, ih hnext]
    cases hexDumpLine bytes length pfx i <;> rfl

end CFS
