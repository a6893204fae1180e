import Chip8Disasm.Text.Quoted

/-! What can be wrong with a table of instruction patterns. -/

namespace Chip8Disasm

inductive TableError where
  /-- A pattern that is not four hex digits and operand letters. -/
  | badPattern (text : String)
  /-- A mask that is not four characters long. -/
  | badMask (mask : String)
  /-- Two rows with one pattern: the mnemonic that had it and the one that asked for it again. -/
  | collision (pattern existing duplicate : String)
  /-- A line of the table, counted from one, that has not exactly two fields. -/
  | badLine (number : Nat) (line : String)
deriving DecidableEq

def TableError.message : TableError → String
  | .badPattern text => s!"invalid hex pattern: {Text.quoted text}"
  | .badMask mask => s!"invalid variable mask: {Text.quoted mask}"
  | .collision pattern existing duplicate => s!"pattern {duplicate} ({pattern}) collides with {existing} ({pattern})"
  | .badLine number line =>
    s!"pattern table line {number}: expected '<pattern> <mnemonic>', got {Text.quoted line}"

end Chip8Disasm
