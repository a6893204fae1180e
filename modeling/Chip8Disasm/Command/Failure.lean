import Chip8Disasm.Command.FileSystem
import Chip8Disasm.Reader

/-! The failures that end a run. -/

namespace Chip8Disasm.Command

/-- Why a file gives no text. -/
inductive TextError where
  | file (e : FileError)
  /-- Its bytes are no UTF-8. -/
  | notText
deriving DecidableEq

def TextError.message : TextError → String
  | .file e => e.message
  | .notText => "stream did not contain valid UTF-8"

/-- What went wrong, by the stage that it went wrong in, in the order of the stages. -/
inductive Failure where
  | readTable (path : String) (e : TextError)
  | parseTable (path : String) (e : TableError)
  | compileTable (e : TableError)
  | openProgram (path : String) (e : FileError)
  | readProgram (path : String) (e : StreamError)
  | createListing (path : String) (e : FileError)
deriving DecidableEq

namespace Failure

def context? : Failure → Option String
  | .readTable path _ => some s!"failed to read pattern table {path}"
  | .parseTable path _ => some s!"invalid pattern table {path}"
  | .compileTable _ => none
  | .openProgram path _ => some s!"failed to open {path}"
  | .readProgram path _ => some s!"failed to disassemble {path}"
  | .createListing path _ => some s!"failed to create {path}"

def message : Failure → String
  | .readTable _ e => e.message
  | .parseTable _ e => e.message
  | .compileTable e => e.message
  | .openProgram _ e => e.message
  | .readProgram _ e => e.message
  | .createListing _ e => e.message

end Failure

end Chip8Disasm.Command
