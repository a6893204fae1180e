/-! Hexadecimal numerals. A numeral has at least as many digits as are asked for, and never fewer than
    its number needs. -/

namespace Chip8Disasm.Hex

/-- How the digits from ten up are written. -/
inductive Letters where
  | upper
  | lower
deriving DecidableEq

def Letters.digit : Letters → Nat → Char
  | .upper, d => (Nat.digitChar d).toUpper
  | .lower, d => Nat.digitChar d

/-- How many digits `n` needs; zero needs one. -/
def size (n : Nat) : Nat :=
  n.log2 / 4 + 1

/-- The last `width` digits of `n` in base sixteen, most significant first. -/
def digits (width n : Nat) : List Nat :=
  (List.range width).map fun i => n >>> (4 * (width - 1 - i)) % 16

/-- The numeral of `n`, filled with zeros on the left to at least `width` digits. -/
def numeral (letters : Letters) (width n : Nat) : String :=
  String.ofList ((digits (max width (size n)) n).map letters.digit)

def marked (letters : Letters) (width n : Nat) : String :=
  "0x" ++ numeral letters width n

/-! ### Basic facts -/

@[simp]
theorem length_digits (width n : Nat) : (digits width n).length = width := by
  simp [digits]

theorem digits_lt {width n d : Nat} (h : d ∈ digits width n) : d < 16 := by
  obtain ⟨i, -, rfl⟩ := List.mem_map.mp h
  exact Nat.mod_lt _ (by decide)

end Chip8Disasm.Hex
