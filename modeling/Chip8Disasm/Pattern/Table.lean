import Chip8Disasm.Pattern.Basic
import Chip8Disasm.Text.Lines

/-! Pattern tables as text: a row a line, the pattern first and then the mnemonic. A semicolon starts a comment,
    and lines that hold nothing else are skipped. -/

namespace Chip8Disasm.Table

/-- What of a line stands before its comment. -/
def code (line : List Char) : List Char :=
  line.takeWhile fun c => c ≠ ';'

/-- Reads the line with the given number, which holds a row or nothing. -/
def readLine (number : Nat) (line : List Char) : Except TableError (Option Pattern) :=
  match Text.fields (code line) with
  | [] => .ok none
  | [pattern, mnemonic] => (Pattern.ofText? (String.ofList pattern) (String.ofList mnemonic)).map some
  | _ => .error (.badLine number (String.ofList line))

/-- Reads lines that are numbered from `number` on. The first line that cannot be read decides. -/
def readLines (number : Nat) : List (List Char) → Except TableError (List Pattern)
  | [] => .ok []
  | line :: lines => do
    let row ← readLine number line
    let rows ← readLines (number + 1) lines
    return row.toList ++ rows

def parse? (text : String) : Except TableError (List Pattern) :=
  readLines 1 (Text.lines text.toList)

/-- A table as text: each row on a line of its own, with one space between pattern and mnemonic. -/
def print (rows : List Pattern) : String :=
  String.join (rows.map fun p => s!"{p.text} {p.mnemonic}\n")

end Chip8Disasm.Table
