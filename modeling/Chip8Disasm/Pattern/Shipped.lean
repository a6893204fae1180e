import Chip8Disasm.Pattern.Basic

/-! The instruction set of the CHIP-8. Calls of machine code, which would take every word below 0x1000, are left
    out, so of those words only two are instructions. -/

namespace Chip8Disasm.Pattern

/-- A pattern from its four cells. -/
def row (a b c d : Cell) (mnemonic : String) : Pattern :=
  ⟨[a, b, c, d], mnemonic, rfl⟩

/-- A number stands for the cell that demands it as a digit. -/
instance (d : Nat) : OfNat Cell d where
  ofNat := .digit (Fin.ofNat 16 d)

/-- The instruction set, in the order in which shapes are tried. -/
def shipped : List Pattern :=
  let n := Cell.operand .n
  let x := Cell.operand .x
  let y := Cell.operand .y
  [row 0x0 0x0 0xE 0x0 "CLEAR", row 0x0 0x0 0xE 0xE "RETURN",
   row 0x1 n n n "GOTO", row 0x2 n n n "CALL",
   row 0x3 x n n "SIEQ", row 0x4 x n n "SINE", row 0x5 x y 0x0 "SREQ",
   row 0x6 x n n "SETR", row 0x7 x n n "ADDI",
   row 0x8 x y 0x0 "COPY", row 0x8 x y 0x1 "OR", row 0x8 x y 0x2 "AND", row 0x8 x y 0x3 "XOR",
   row 0x8 x y 0x4 "ADD", row 0x8 x y 0x5 "SUB", row 0x8 x y 0x6 "SHIFTR", row 0x8 x y 0x7 "SUB-",
   row 0x8 x y 0xE "SHIFTL",
   row 0x9 x y 0x0 "SRNE", row 0xA n n n "SETI", row 0xB n n n "JUMPR", row 0xC x n n "RAND",
   row 0xD x y n "DRAW",
   row 0xE x 0x9 0xE "SKPR", row 0xE x 0xA 0x1 "SKNP",
   row 0xF x 0x0 0x7 "RDEL", row 0xF x 0x0 0xA "KEY", row 0xF x 0x1 0x5 "TDEL", row 0xF x 0x1 0x8 "TSND",
   row 0xF x 0x1 0xE "IADD", row 0xF x 0x2 0x9 "CHAR", row 0xF x 0x3 0x3 "DEC", row 0xF x 0x5 0x5 "DUMP",
   row 0xF x 0x6 0x5 "LOAD"]

end Chip8Disasm.Pattern
