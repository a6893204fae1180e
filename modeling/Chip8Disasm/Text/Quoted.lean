import Chip8Disasm.Hex
import Chip8Disasm.Text.Unprintable

/-! Quoted text, as messages show what they were given. -/

namespace Chip8Disasm.Text

/-- How a character stands between quotes: six have a short form, those that cannot be shown are given by their
    code point, and all others stand for themselves. -/
def escape (c : Char) : String :=
  match c with
  | '\x00' => "\\0"
  | '\t' => "\\t"
  | '\n' => "\\n"
  | '\r' => "\\r"
  | '"' => "\\\""
  | '\\' => "\\\\"
  | c => if isUnprintable c then "\\u\x7b" ++ Hex.numeral .lower 1 c.toNat ++ "\x7d" else c.toString

def quoted (text : String) : String :=
  "\"" ++ String.join (text.toList.map escape) ++ "\""

/-- A list of texts between brackets, each of them quoted. -/
def quotedList (texts : List String) : String :=
  "[" ++ ", ".intercalate (texts.map quoted) ++ "]"

end Chip8Disasm.Text
