-- SUMMARY: The layouts of the seed files in the recipe of the harness Makefile.
import CfsMmFuzzer.Base.ByteOrder

/-!
# Seed layouts (`Makefile`, target `create-seeds`)

The recipe lays out three files. Each is a `bytearray(200)` that is filled by
index and slice assignments, with integers packed little-endian. What is modelled
is these layouts: the lines of a program are joined into one, which Python does not
accept, so the recipe writes none of the files.
-/

namespace MM

/-- `data[i:i+k] = bytes` for `k` bytes. -/
def setSlice (data : List UInt8) (i : Nat) (bytes : List UInt8) : List UInt8 :=
  data.take i ++ bytes ++ data.drop (i + bytes.length)

/-- The two forms of destination in the recipe. -/
inductive SeedDest where
  | symbol (s : UInt8)
  | address (a : UInt64)
  deriving DecidableEq

/-- What a layout sets: memory type, size, CRC, destination and path. -/
def seed (m : UInt8) (n crc : UInt32) (dest : SeedDest) (p : UInt8) : List UInt8 :=
  let data := List.replicate 200 0
  let data := data.set 0 m
  let data := setSlice data 1 (ByteOrder.little.bytes 4 n.toNat)
  let data := setSlice data 5 (ByteOrder.little.bytes 4 crc.toNat)
  match dest with
  | .symbol s => ((data.set 9 0).set 10 s).set 11 p
  | .address a => (setSlice (data.set 9 1) 10 (ByteOrder.little.bytes 8 a.toNat)).set 18 p

/-- The layout of `valid_ram.bin`. -/
def validRam : List UInt8 := seed 1 1024 0 (.symbol 0) 0

/-- The layout of `valid_eeprom.bin`. -/
def validEeprom : List UInt8 := seed 2 65536 0x12345678 (.address 0x08080000) 1

/-- The layout of `max_size.bin`. -/
def maxSize : List UInt8 := seed 1 1048576 0 (.symbol 0) 2

end MM
