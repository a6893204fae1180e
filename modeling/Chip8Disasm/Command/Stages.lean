import Chip8Disasm.Command.Platform
import Chip8Disasm.Listing
import Chip8Disasm.Pattern.Table

/-! Runs of the program on any platform: the stages that a request goes through, and what a run leaves behind. -/

namespace Chip8Disasm.Command

/-! ### Stages -/

/-- The rows of the table that a request asks for, whose file is given by its path and its bytes. -/
def rows : Option (String × Except FileError (List UInt8)) → Except Failure (List Pattern)
  | none => .ok Pattern.shipped
  | some (path, .error e) => .error (.readTable path (.file e))
  | some (path, .ok bytes) =>
    match String.fromUTF8? ⟨bytes.toArray⟩ with
    | none => .error (.readTable path .notText)
    | some text => (Table.parse? text).mapError (.parseTable path)

/-- The decoder that a request asks for. -/
def prepare (policy : Policy) (table : Option (String × Except FileError (List UInt8))) :
    Traced (Except Failure Decoder) :=
  Traced.andThen ⟨rows table, []⟩ fun ps =>
    ((Decoder.compile policy ps).map fun compiled => compiled.mapError .compileTable).andThen fun d =>
      ⟨.ok d, [.decoding d.shapes]⟩

/-- The listing of the program at a path, whose source is given. -/
def list (path : String) (opened : Except FileError Source) (d : Decoder) : Traced (Except Failure String) :=
  Traced.andThen ⟨opened.mapError (.openProgram path), []⟩ fun source =>
    (Listing.ofSource d source).map fun listed => (listed.map Listing.print).mapError (.readProgram path)

section
variable {σ φ : Type} (fs : FileSystem σ φ)

/-- The listing that a request asks for. -/
def listed (r : Request) (d : σ) (stdin : Source) : Traced (Except Failure String) :=
  (prepare r.policy (r.patterns.map fun path => (path, fs.load path d))).andThen fun decoder =>
    list r.file (if r.file = "-" then .ok stdin else fs.source r.file d) decoder

/-- Puts a listing where it is to go. Gives what is printed, and the files afterwards. -/
def deliver (out : Option String) (listing : String) (d : σ) : Except Failure String × σ :=
  match out with
  | none => (.ok listing, d)
  | some path =>
    match fs.create path d with
    | .error e => (.error (.createListing path e), d)
    | .ok (file, d) => (.ok "", fs.write file listing.toUTF8.toList d)

/-- Does what a request asks for. Nothing is put anywhere before the listing is there. -/
def perform (r : Request) (d : σ) (stdin : Source) : Traced (Except Failure String × σ) :=
  (listed fs r d stdin).map fun
    | .error f => (.error f, d)
    | .ok listing => deliver fs r.out listing d

end

/-! ### Runs -/

/-- What can be seen of a run once it has ended. -/
structure Outcome (σ : Type) where
  exit : UInt32
  stdout : String
  stderr : String
  /-- The state of the files. -/
  disk : σ
deriving DecidableEq

namespace Platform
variable {σ φ : Type} (p : Platform σ φ)

/-- The end of a run, with the records shown from a level on. -/
def conclude (threshold : Level) : Traced (Except Failure String × σ) → Outcome σ
  | ⟨(.ok printed, after), log⟩ => ⟨0, printed, p.logger.shown threshold log, after⟩
  | ⟨(.error f, after), log⟩ => ⟨1, "", p.logger.shown threshold log ++ p.report f, after⟩

def run (args : List String) (d : σ) (stdin : Source) : Outcome σ :=
  match p.parse args with
  | .error refusal => ⟨refusal.exit, refusal.stdout, refusal.stderr, d⟩
  | .ok r => p.conclude r.threshold (perform p.files r d stdin)

end Platform

end Chip8Disasm.Command
