import Chip8Disasm.Command.Platform

/-! One parser of command lines: `disassemble chip8 FILE` with options before, between and behind. It has no pages of help
    to give, and one line for whatever is wrong. Nothing that is said of runs depends on it. -/

namespace Chip8Disasm.Command

def versionLine : String :=
  "c8dasm 0.1.0\n"

def usageLine : String :=
  "usage: c8dasm [-v | -q] disassemble chip8 FILE [--out PATH] [--patterns PATH] [--shadowing]\n"

def usageExit : UInt32 :=
  2

namespace Refusal

def version : Refusal :=
  ⟨0, versionLine, ""⟩

def usage : Refusal :=
  ⟨usageExit, "", usageLine⟩

end Refusal

/-- The commands, one inside the other. Each has options of its own. -/
inductive Depth where
  | program
  | disassemble
  | chip8
deriving DecidableEq

inductive Switch where
  | verbose
  | quiet
  | version
  | shadowing
  | out
  | patterns
deriving DecidableEq

namespace Switch

/-- The option of a command with a given long name. -/
def ofLong? : Depth → String → Option Switch
  | _, "verbose" => some .verbose
  | _, "quiet" => some .quiet
  | .program, "version" => some .version
  | .chip8, "shadowing" => some .shadowing
  | .chip8, "out" => some .out
  | .chip8, "patterns" => some .patterns
  | _, _ => none

/-- The option of a command with a given short name. -/
def ofShort? : Depth → Char → Option Switch
  | _, 'v' => some .verbose
  | _, 'q' => some .quiet
  | .program, 'V' => some .version
  | .chip8, 'o' => some .out
  | .chip8, 'p' => some .patterns
  | _, _ => none

def takesPath : Switch → Bool
  | .out | .patterns => true
  | .verbose | .quiet | .version | .shadowing => false

end Switch

/-- What is known after the first arguments of a command line. -/
structure Scan where
  /-- The command that the next argument belongs to. -/
  depth : Depth
  /-- The options that were given to this command. -/
  here : List Switch
  /-- The options that were given to the commands before. -/
  before : List Switch
  /-- The option whose path is to come next. -/
  awaiting : Option Switch
  /-- Whether all that follows is taken as it stands. -/
  literal : Bool
  out : Option String
  patterns : Option String
  file : Option String
deriving DecidableEq

namespace Scan

def start : Scan :=
  ⟨.program, [], [], none, false, none, none, none⟩

/-- Notes an option. No command takes an option twice. -/
def note (switch : Switch) (s : Scan) : Except Refusal Scan :=
  if switch ∈ s.here then .error .usage
  else if switch = .version then .error .version
  else .ok { s with here := switch :: s.here, awaiting := none }

/-- Notes an option and its path, which must not be empty. -/
def notePath (switch : Switch) (path : String) (s : Scan) : Except Refusal Scan :=
  if path = "" then .error .usage
  else
    (s.note switch).map fun s =>
      if switch = .out then { s with out := some path } else { s with patterns := some path }

/-- No command is to be both verbose and quiet. -/
def closes (s : Scan) : Bool :=
  !(s.here.contains .verbose && s.here.contains .quiet)

def descend (depth : Depth) (s : Scan) : Except Refusal Scan :=
  if s.closes then .ok { s with depth, here := [], before := s.here ++ s.before } else .error .usage

/-- Takes an argument that is not an option: the name of a command, or the file. -/
def operand (arg : String) (s : Scan) : Except Refusal Scan :=
  match s.depth, s.file with
  | .program, _ => if arg = "disassemble" then s.descend .disassemble else .error .usage
  | .disassemble, _ => if arg = "chip8" then s.descend .chip8 else .error .usage
  | .chip8, none => .ok { s with file := some arg }
  | .chip8, some _ => .error .usage

/-- Takes an option by its long name, with the path behind an equals sign if there is one. -/
def long (arg : List Char) (s : Scan) : Except Refusal Scan :=
  let name := arg.takeWhile fun c => c ≠ '='
  let path := (arg.dropWhile fun c => c ≠ '=').tail?
  match Switch.ofLong? s.depth (String.ofList name), path with
  | none, _ => .error .usage
  | some switch, none => if switch.takesPath then .ok { s with awaiting := some switch } else s.note switch
  | some switch, some path =>
    if switch.takesPath then s.notePath switch (String.ofList path) else .error .usage

/-- Takes options by their short names. A path takes all that follows its option. -/
def short : List Char → Scan → Except Refusal Scan
  | [], s => .ok s
  | c :: rest, s =>
    match Switch.ofShort? s.depth c with
    | none => .error .usage
    | some switch =>
      if switch.takesPath then
        match rest with
        | [] => .ok { s with awaiting := some switch }
        | '=' :: path => s.notePath switch (String.ofList path)
        | path => s.notePath switch (String.ofList path)
      else (s.note switch).bind (short rest)

def step (s : Scan) (arg : String) : Except Refusal Scan :=
  if s.literal then s.operand arg
  else
    match arg.toList, s.awaiting with
    | '-' :: _ :: _, some _ => .error .usage
    | _, some switch => s.notePath switch arg
    | ['-', '-'], none => if s.depth = .chip8 then .ok { s with literal := true } else .error .usage
    | '-' :: '-' :: name, none => s.long name
    | '-' :: c :: names, none => s.short (c :: names)
    | _, none => s.operand arg

/-- The request, once every argument is taken. -/
def finish (s : Scan) : Except Refusal Request :=
  match s.awaiting, s.file with
  | none, some file =>
    let given := s.here ++ s.before
    if s.closes then
      .ok ⟨file, s.out, s.patterns, given.contains .shadowing, given.contains .verbose, given.contains .quiet⟩
    else .error .usage
  | _, _ => .error .usage

end Scan

def Request.ofArgs? (args : List String) : Except Refusal Request :=
  (args.foldlM Scan.step Scan.start).bind Scan.finish

end Chip8Disasm.Command
