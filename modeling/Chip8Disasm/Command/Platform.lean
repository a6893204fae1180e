import Chip8Disasm.Command.Failure
import Chip8Disasm.Command.Request

/-! Platforms: what a run finds around it and has no say in. The command line is parsed, files are read and written,
    records are shown and failures are explained by others. -/

namespace Chip8Disasm.Command

/-- The end of a run whose command line leads to no request. -/
structure Refusal where
  exit : UInt32
  stdout : String
  stderr : String
deriving DecidableEq

structure Logger where
  /-- Whether a record is shown, by its level and the least level that is asked for. -/
  passes (threshold level : Level) : Bool
  /-- A record as it is shown. -/
  line (level : Level) (origin text : String) : String

namespace Logger

/-- Records as they are shown, one after the other. -/
def lines (logger : Logger) (log : List Record) : String :=
  String.join (log.map fun rec => logger.line rec.level rec.origin rec.text)

/-- What is shown of a log. -/
def shown (logger : Logger) (threshold : Level) (log : List Record) : String :=
  logger.lines (log.filter fun rec => logger.passes threshold rec.level)

end Logger

structure Platform (σ φ : Type) where
  /-- The request that the arguments of a command line make. -/
  parse (args : List String) : Except Refusal Request
  files : FileSystem σ φ
  logger : Logger
  /-- The text for a failure, from the message and from what was being done, if that is said. -/
  explain (context? : Option String) (message : String) : String

/-- The last words of a run that fails. -/
def Platform.report {σ φ : Type} (p : Platform σ φ) (f : Failure) : String :=
  s!"Error: {p.explain f.context? f.message}\n"

end Chip8Disasm.Command
