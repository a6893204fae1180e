import Chip8Disasm.Layout

/-! Instruction patterns. A pattern gives for each of a word's four nibbles the digit it must be, or the letter
    of the operand that it belongs to, and names the instruction that such words are. -/

namespace Chip8Disasm

/-- The letters that stand for operand nibbles: constants and two registers. -/
inductive Letter where
  | n
  | x
  | y
deriving DecidableEq

def Letter.char : Letter → Char
  | .n => 'N'
  | .x => 'X'
  | .y => 'Y'

/-- What a pattern says about one nibble. -/
inductive Cell where
  | digit (d : Fin 16)
  | operand (letter : Letter)
deriving DecidableEq

namespace Cell

/-- What stands for a cell in a mask that leaves it out. -/
def filler : Char := '_'

def char : Cell → Char
  | .digit d => Hex.Letters.upper.digit d
  | .operand letter => letter.char

/-- The character of a digit; operands are left out. -/
def fixedChar : Cell → Char
  | .digit d => (Cell.digit d).char
  | .operand _ => filler

/-- The character of an operand; digits are left out. -/
def maskChar : Cell → Char
  | .digit _ => filler
  | .operand letter => letter.char

/-- The nibble that a cell demands, if it demands one. -/
def fixed? : Cell → Option UInt8
  | .digit d => some (UInt8.ofNat d)
  | .operand _ => none

def all : List Cell :=
  (List.finRange 16).map .digit ++ [.operand .n, .operand .x, .operand .y]

/-- The cell that is written as a given character. -/
def ofChar? (c : Char) : Option Cell :=
  all.find? fun cell => cell.char = c

end Cell

/-- A row of a pattern table: four cells and the mnemonic of the words that fit them. -/
structure Pattern where
  cells : List Cell
  mnemonic : String
  length_cells : cells.length = 4
deriving DecidableEq

namespace Pattern

def text (p : Pattern) : String :=
  String.ofList (p.cells.map Cell.char)

/-- The digits of a pattern, with its operands left out. -/
def fixedMask (p : Pattern) : String :=
  String.ofList (p.cells.map Cell.fixedChar)

/-- The operands of a pattern, with its digits left out. Patterns with one such mask are of one shape. -/
def shape (p : Pattern) : String :=
  String.ofList (p.cells.map Cell.maskChar)

/-- What a word must have in its opcode fields to fit the pattern. -/
def key (p : Pattern) : Key :=
  p.cells.map Cell.fixed?

/-- Reads a pattern of exactly four digits and operand letters. -/
def ofText? (text mnemonic : String) : Except TableError Pattern :=
  match text.toList.mapM Cell.ofChar? with
  | none => .error (.badPattern text)
  | some cells => if h : cells.length = 4 then .ok ⟨cells, mnemonic, h⟩ else .error (.badPattern text)

end Pattern

end Chip8Disasm
