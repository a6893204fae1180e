import Chip8Disasm.Command.Run

/-! The program. It does on the files of the system what `Command.run` does on a directory. -/

namespace Chip8Disasm.Command

/-- The failure of the system as the failure of an operation on a file. -/
def FileError.ofSystem (e : IO.Error) : FileError :=
  match e with
  | .interrupted _ code reason | .noFileOrDirectory _ code reason => ⟨reason, code.toNat⟩
  | .alreadyExists _ code reason | .invalidArgument _ code reason | .permissionDenied _ code reason
  | .resourceExhausted _ code reason | .inappropriateType _ code reason | .noSuchThing _ code reason =>
    ⟨reason, code.toNat⟩
  | .otherError code reason | .resourceBusy code reason | .resourceVanished code reason
  | .unsupportedOperation code reason | .hardwareFault code reason | .unsatisfiedConstraints code reason
  | .illegalOperation code reason | .protocolError code reason | .timeExpired code reason => ⟨reason, code.toNat⟩
  | .unexpectedEof | .userError _ => ⟨e.toString, 0⟩

def attempt {α : Type} (action : IO α) : IO (Except FileError α) := do
  match ← action.toBaseIO with
  | .ok a => return .ok a
  | .error e => return .error (.ofSystem e)

/-- The bytes of a stream up to its end. -/
partial def drain (stream : IO.FS.Stream) (bytes : ByteArray) : IO ByteArray := do
  let more ← stream.read 65536
  if more.isEmpty then return bytes else drain stream (bytes ++ more)

def sourceOf (stream : IO.FS.Stream) : IO Source := do
  match ← attempt (drain stream .empty) with
  | .ok bytes => return .ofBytes bytes.toList
  | .error e => return [.fail ⟨.other, e.message⟩]

def loadFile (path : String) : IO (Except FileError (List UInt8)) := do
  match ← attempt (IO.FS.Handle.mk ⟨path⟩ .read) with
  | .error e => return .error e
  | .ok handle => attempt do return (← drain (.ofHandle handle) .empty).toList

def openProgram (path : String) : IO (Except FileError Source) := do
  if path = "-" then return .ok (← sourceOf (← IO.getStdin))
  match ← attempt (IO.FS.Handle.mk ⟨path⟩ .read) with
  | .error e => return .error e
  | .ok handle => return .ok (← sourceOf (.ofHandle handle))

def deliverFile (out : Option String) (listing : String) : IO (Except Failure Unit) := do
  match out with
  | none =>
    (← IO.getStdout).putStr listing
    return .ok ()
  | some path =>
    match ← attempt (IO.FS.Handle.mk ⟨path⟩ .write) with
    | .error e => return .error (.createListing path e)
    | .ok handle =>
      handle.putStr listing
      return .ok ()

/-- Shows the log of a stage and gives its result. -/
def showing {α : Type} (r : Request) (t : Traced (Except Failure α)) : ExceptT Failure IO α := do
  IO.eprint (program.logger.shown r.threshold t.log)
  t.value

/-- Does what a request asks for. -/
def performFile (r : Request) : ExceptT Failure IO Unit := do
  let table ← match r.patterns with
    | none => pure none
    | some path => pure (some (path, ← loadFile path))
  let d ← showing r (prepare r.policy table)
  let listing ← showing r (list r.file (← openProgram r.file) d)
  ExceptT.mk (deliverFile r.out listing)

end Chip8Disasm.Command

open Chip8Disasm.Command in
/-- Runs the program on a command line. -/
def main (args : List String) : IO UInt32 := do
  match program.parse args with
  | .error refusal =>
    IO.print refusal.stdout
    IO.eprint refusal.stderr
    return refusal.exit
  | .ok r =>
    match ← performFile r with
    | .ok () => return 0
    | .error f =>
      IO.eprint (program.report f)
      return 1
