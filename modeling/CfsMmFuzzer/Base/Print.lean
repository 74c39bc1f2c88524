-- SUMMARY: What `printf` prints for numbers, and text made of lines.
import Mathlib.Data.List.DropRight
import CfsMmFuzzer.Base.Hex

/-!
# Printing

Numerals without padding, in ASCII, and messages that end with a line break each.
Where no message has a line break inside, the text gives the messages back.
-/

namespace Print

/-! ## Numerals -/

/-- `printf("%u", n)`. -/
def decimal (n : Nat) : List UInt8 :=
  ((Nat.digits 10 n).reverse.map Hex.digit).leftpad 1 (Hex.digit 0)

/-- The digits `0`-`9` and `a`-`f`. -/
def lowerDigit (d : Nat) : UInt8 :=
  if d < 10 then UInt8.ofNat (0x30 + d) else UInt8.ofNat (0x57 + d)

/-- `printf("%lx", n)`. -/
def hexLower (n : Nat) : List UInt8 :=
  ((Nat.digits 16 n).reverse.map lowerDigit).leftpad 1 (lowerDigit 0)

/-- The characters of a numeral are digits. -/
theorem exists_digit_of_mem {base width n : Nat} {digit : Nat → UInt8} {c : UInt8} (hbase : 1 < base)
    (h : c ∈ ((Nat.digits base n).reverse.map digit).leftpad width (digit 0)) :
    ∃ d < base, c = digit d := by
  rw [List.leftpad, List.mem_append] at h
  obtain hzero | hdigit := h
  · exact ⟨0, Nat.zero_lt_of_lt hbase, List.eq_of_mem_replicate hzero⟩
  · obtain ⟨d, hd, rfl⟩ := List.mem_map.mp hdigit
    exact ⟨d, Nat.digits_lt_base hbase (List.mem_reverse.mp hd), rfl⟩

theorem isDigit_of_mem_decimal {n : Nat} {c : UInt8} (h : c ∈ decimal n) : Hex.IsDigit c := by
  obtain ⟨d, hd, rfl⟩ := exists_digit_of_mem (by decide) h
  exact Hex.isDigit_digit (by omega)

/-- What satisfies `p` falls away at the end of a text, as a numeral does. -/
theorem rdropWhile_append {p : UInt8 → Bool} {digits : List UInt8} (h : ∀ c ∈ digits, p c)
    (l : List UInt8) : (l ++ digits).rdropWhile p = l.rdropWhile p := by
  induction digits using List.reverseRecOn with
  | nil => rw [List.append_nil]
  | append_singleton digits d ih =>
    have hd : p d := h d (List.mem_append_right _ (List.mem_singleton_self d))
    rw [← List.append_assoc, List.rdropWhile_concat_pos _ _ _ hd]
    exact ih fun c hc => h c (List.mem_append_left _ hc)

/-! ## Lines -/

def newline : UInt8 := 0x0A

/-- The messages, each with a line break behind it. -/
def unlines (messages : List (List UInt8)) : List UInt8 := messages.flatMap (· ++ [newline])

@[simp] theorem unlines_nil : unlines [] = [] := rfl

@[simp] theorem unlines_cons (message : List UInt8) (messages : List (List UInt8)) :
    unlines (message :: messages) = message ++ newline :: unlines messages := by
  simp [unlines]

/-- Messages without a line break are the lines of the text. -/
theorem splitOn_unlines {messages : List (List UInt8)} (h : ∀ m ∈ messages, newline ∉ m) :
    (unlines messages).splitOn newline = messages ++ [[]] := by
  induction messages with
  | nil => rfl
  | cons m ms ih =>
    have hm : ∀ c ∈ m, (c == newline) = false := by
      intro c hc
      rw [beq_eq_false_iff_ne]
      rintro rfl
      exact h m List.mem_cons_self hc
    have hrest := ih fun m hm => h m (List.mem_cons_of_mem _ hm)
    rw [List.splitOn_eq_splitOnP] at hrest ⊢
    rw [unlines_cons, List.splitOnP_append_cons_of_forall_mem hm _ (beq_self_eq_true newline),
      hrest, List.cons_append]

theorem newline_not_mem_of_digits {s : List UInt8} (h : ∀ c ∈ s, Hex.IsDigit c) : newline ∉ s :=
  fun hmem => absurd (h _ hmem) (by decide)

theorem newline_not_mem_decimal (n : Nat) : newline ∉ decimal n :=
  newline_not_mem_of_digits fun _ => isDigit_of_mem_decimal

theorem newline_not_mem_numeral (width n : Nat) : newline ∉ Hex.numeral width n :=
  newline_not_mem_of_digits fun _ => Hex.isDigit_of_mem_numeral

theorem newline_not_mem_hexLower (n : Nat) : newline ∉ hexLower n := by
  intro hmem
  obtain ⟨d, hd, hc⟩ := exists_digit_of_mem (by decide) hmem
  revert hc
  interval_cases d <;> decide

end Print
