import Chip8Disasm.Layout
import Chip8Disasm.Word

/-! Instructions, the lines of a listing. -/

namespace Chip8Disasm

/-- What a word turned out to be. -/
inductive Instruction where
  /-- A word that fits a pattern, by its mnemonic and the fields it was cut into. -/
  | decoded (word : Word) (mnemonic : String) (fields : List Field)
  /-- A word that fits no pattern. -/
  | unknown (word : Word)
deriving DecidableEq

namespace Instruction

/-- What a word with a mnemonic is when it is cut by a layout. -/
def ofLayout (layout : Layout) (mnemonic : String) (w : Word) : Instruction :=
  .decoded w mnemonic (layout.fields w.nibbles)

def word : Instruction → Word
  | .decoded w _ _ => w
  | .unknown w => w

def mnemonic : Instruction → String
  | .decoded _ m _ => m
  | .unknown _ => "UNKNOWN"

/-- The parts of the word; an unknown word is one opcode field. -/
def fields : Instruction → List Field
  | .decoded _ _ fs => fs
  | .unknown w => [⟨.opcode, w.nibbles⟩]

def operands (i : Instruction) : List Field :=
  i.fields.filter Field.isOperand

def isUnknown : Instruction → Bool
  | .decoded .. => false
  | .unknown _ => true

/-- The line of a listing. An instruction is its mnemonic and its operands, an unknown word its whole numeral. -/
def text (i : Instruction) : String :=
  let shown := match i with
    | .decoded .. => i.operands
    | .unknown _ => i.fields
  String.join (i.mnemonic :: shown.map fun f => " " ++ f.text)

end Instruction

end Chip8Disasm
