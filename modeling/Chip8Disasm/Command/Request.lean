import Chip8Disasm.Decoder

/-! Requests: what a command line asks for. -/

namespace Chip8Disasm.Command

structure Request where
  /-- The program to disassemble; a single dash is the standard input. -/
  file : String
  /-- The file that the listing goes to, if not to the standard output. -/
  out : Option String
  /-- The file that holds the pattern table, if it is not the shipped one. -/
  patterns : Option String
  /-- A later row of the table may take the place of an earlier one. -/
  shadowing : Bool
  verbose : Bool
  quiet : Bool
deriving DecidableEq

namespace Request

def policy (r : Request) : Policy :=
  if r.shadowing then .lastWins else .reject

/-- The least level of the records that are asked for. -/
def threshold (r : Request) : Level :=
  if r.verbose then .debug else if r.quiet then .error else .warn

end Request

end Chip8Disasm.Command
