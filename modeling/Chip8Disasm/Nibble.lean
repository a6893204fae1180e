import Chip8Disasm.Hex

/-! Nibbles, the half bytes that instructions are made of, and the numbers that rows of nibbles or of bytes
    stand for. A nibble is kept in a byte of which only the low four bits count. -/

namespace Chip8Disasm

/-- The number that digits in base `base` stand for, the most significant first, modulo `2 ^ 32`. -/
def bigEndian (base : UInt32) (digits : List UInt32) : UInt32 :=
  digits.foldl (fun value digit => value * base + digit) 0

/-- The number that bytes stand for, the most significant first, modulo `2 ^ 32`. -/
def bytesValue (bytes : List UInt8) : UInt32 :=
  bigEndian 256 (bytes.map UInt8.toUInt32)

namespace Nibble

def high (byte : UInt8) : UInt8 :=
  byte / 16

def low (byte : UInt8) : UInt8 :=
  byte % 16

/-- The two nibbles of a byte, in reading order. -/
def ofByte (byte : UInt8) : List UInt8 :=
  [high byte, low byte]

/-- The number that nibbles stand for, the most significant first, modulo `2 ^ 32`. -/
def value (nibbles : List UInt8) : UInt32 :=
  bigEndian 16 (nibbles.map fun n => (low n).toUInt32)

/-- The digits of a row of nibbles: one digit a nibble, and the single digit zero for none. -/
def text (letters : Hex.Letters) (nibbles : List UInt8) : String :=
  Hex.numeral letters nibbles.length (value nibbles).toNat

/-- The digits of a row of nibbles behind the mark of their base. -/
def markedText (letters : Hex.Letters) (nibbles : List UInt8) : String :=
  "0x" ++ text letters nibbles

/-! ### Basic facts -/

theorem high_lt (byte : UInt8) : (high byte).toNat < 16 := by
  have := byte.toNat_lt
  simp only [high, UInt8.toNat_div, UInt8.reduceToNat]
  omega

theorem low_lt (byte : UInt8) : (low byte).toNat < 16 := by
  simp only [low, UInt8.toNat_mod, UInt8.reduceToNat]
  omega

@[simp]
theorem low_high (byte : UInt8) : low (high byte) = high byte := by
  apply UInt8.toNat_inj.mp
  have := high_lt byte
  simp only [low, UInt8.toNat_mod, UInt8.reduceToNat]
  omega

@[simp]
theorem low_low (byte : UInt8) : low (low byte) = low byte := by
  apply UInt8.toNat_inj.mp
  have := low_lt byte
  simp only [low, UInt8.toNat_mod, UInt8.reduceToNat] at this ⊢
  omega

/-- A byte is its upper nibble sixteen times and its lower nibble. -/
theorem toNat_eq (byte : UInt8) : byte.toNat = 16 * (high byte).toNat + (low byte).toNat := by
  simp only [high, low, UInt8.toNat_div, UInt8.toNat_mod, UInt8.reduceToNat]
  omega

end Nibble

end Chip8Disasm
