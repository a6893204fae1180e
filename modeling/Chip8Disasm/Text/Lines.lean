import Chip8Disasm.Text.Blank

/-! The lines of a text and the fields of a line. -/

namespace Chip8Disasm.Text

/-- A line without the carriage return that stands last in it. -/
def dropReturn (line : List Char) : List Char :=
  if line.getLast? = some '\r' then line.dropLast else line

/-- Turns the pieces between newlines into lines. Each piece but the last was ended by a newline and loses one
    carriage return in front of it; the last is a line only if it holds something. -/
def ofPieces : List (List Char) → List (List Char)
  | [] => []
  | [last] => if last.isEmpty then [] else [last]
  | piece :: pieces => dropReturn piece :: ofPieces pieces

def lines (text : List Char) : List (List Char) :=
  ofPieces (text.splitOnP fun c => c = '\n')

/-- The fields of a line: its longest runs of characters that are not white space. -/
def fields (line : List Char) : List (List Char) :=
  (line.splitOnP isBlank).filter fun piece => !piece.isEmpty

end Chip8Disasm.Text
