-- SUMMARY: The hex dump: one line for each sixteen bytes, printed by nested loops with 64-bit counters.
import CfsMmFuzzer.Base.CString
import CfsMmFuzzer.Base.Hex

/-!
# The hex dump (`utils.c`)

What is printed is a list of characters. A read outside the data has no result.
The outer loop takes fuel, because its counter can wrap; the inner ones count
down the passes that are left of sixteen.
-/

namespace CFS

section HexDump

variable (bytes : List UInt8) (length : UInt64)

/-- The first inner loop: a byte in hexadecimal, or blanks behind the last one. -/
def hexCells (i : UInt64) : Nat → UInt64 → Option (List UInt8)
  | 0, _ => some []
  | left + 1, j => do
      let cell ←
        if i + j < length then
          (bytes[(i + j).toNat]?).map fun byte => Hex.numeral 2 byte.toNat ++ CString.ascii " "
        else some (CString.ascii "   ")
      let rest ← hexCells i left (j + 1)
      some (cell ++ rest)

/-- `(c >= 32 && c <= 126) ? c : '.'`. -/
def printable (c : UInt8) : UInt8 := if c ≥ 32 ∧ c ≤ 126 then c else 0x2E

/-- The second inner loop, which stops behind the last byte. -/
def asciiCells (i : UInt64) : Nat → UInt64 → Option (List UInt8)
  | 0, _ => some []
  | left + 1, j =>
      if i + j < length then do
        let c ← bytes[(i + j).toNat]?
        let rest ← asciiCells i left (j + 1)
        some (printable c :: rest)
      else some []

/-- `printf("%s%04zX: ", prefix, i)`, or without the prefix where it is `NULL`. -/
def lineHead (pfx : Option CString) (i : UInt64) : List UInt8 :=
  match pfx with
  | some p => p.chars ++ Hex.numeral 4 i.toNat ++ CString.ascii ": "
  | none => Hex.numeral 4 i.toNat ++ CString.ascii ": "

/-- The body of the outer loop. -/
def hexDumpLine (pfx : Option CString) (i : UInt64) : Option (List UInt8) := do
  let hex ← hexCells bytes length i 16 0
  let text ← asciiCells bytes length i 16 0
  some (lineHead pfx i ++ hex ++ CString.ascii " " ++ text ++ CString.ascii "\n")

/-- The outer loop from `i` on. -/
def hexDumpLoop (pfx : Option CString) : Nat → UInt64 → Option (List UInt8)
  | 0, _ => none
  | fuel + 1, i =>
      if i < length then do
        let line ← hexDumpLine bytes length pfx i
        let rest ← hexDumpLoop pfx fuel (i + 16)
        some (line ++ rest)
      else some []

end HexDump

/-- `CFS_HexDump`. -/
def hexDump (fuel : Nat) (data : Option (List UInt8)) (length : UInt64) (pfx : Option CString) :
    Option (List UInt8) :=
  match data with
  | none => some []
  | some bytes => if length = 0 then some [] else hexDumpLoop bytes length pfx fuel 0

end CFS
