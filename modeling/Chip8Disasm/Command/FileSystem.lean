import Chip8Disasm.Source

/-! File systems, by what a run does with them. -/

namespace Chip8Disasm.Command

/-- The failure of an operation on a file, in the words and with the number of the operating system. -/
structure FileError where
  reason : String
  code : Nat
deriving DecidableEq

def FileError.message (e : FileError) : String :=
  s!"{e.reason} (os error {e.code})"

/-- A file system with states `σ` and files `φ`. To read leaves the state alone, and so does what fails. -/
structure FileSystem (σ φ : Type) where
  /-- Everything that the file at a path holds. -/
  load (path : String) (d : σ) : Except FileError (List UInt8)
  /-- Opens a path to read from it. -/
  source (path : String) (d : σ) : Except FileError Source
  /-- Opens a path to write to it. The file that is there loses what it held, and if there is none it is made. -/
  create (path : String) (d : σ) : Except FileError (φ × σ)
  /-- Writes to the end of a file that was opened for it, which cannot fail. -/
  write (file : φ) (bytes : List UInt8) (d : σ) : σ

end Chip8Disasm.Command
