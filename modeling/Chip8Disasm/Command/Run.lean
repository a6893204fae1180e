import Chip8Disasm.Command.Arguments
import Chip8Disasm.Command.Directory
import Chip8Disasm.Command.Stages

/-! The program on one platform: in a directory, with a parser, a logger and an explanation of failures. What is said of
    runs holds on any other as well. -/

namespace Chip8Disasm

/-- The name of a level in a column as wide as the longest of them. -/
def Level.label (l : Level) : String :=
  l.name ++ String.ofList (List.replicate (5 - l.name.length) ' ')

namespace Command

/-- Shows the records from the level that is asked for, a line each. -/
def Logger.standard : Logger where
  passes threshold level := threshold.rank ≤ level.rank
  line level origin text := s!"{level.label} [{origin}] {text}\n"

/-- What was being done stands before the message. -/
def explain (context? : Option String) (message : String) : String :=
  match context? with
  | none => message
  | some context => s!"{context}\n\nCaused by:\n    {message}"

def program : Platform Directory String :=
  ⟨Request.ofArgs?, Directory.system, .standard, explain⟩

def Outcome.directory (o : Outcome Directory) : Directory :=
  o.disk

def run (args : List String) (d : Directory) (stdin : List UInt8) : Outcome Directory :=
  program.run args d (.ofBytes stdin)

end Command

end Chip8Disasm
