import Chip8Disasm.Pattern.Basic
import Chip8Disasm.Text.Quoted
import Chip8Disasm.Word

/-! The log: what is reported on the way to a result. -/

namespace Chip8Disasm

/-- How much a record matters, in ascending order. -/
inductive Level where
  | trace
  | debug
  | warn
  | error
deriving DecidableEq

namespace Level

def rank : Level → Nat
  | .trace => 0
  | .debug => 1
  | .warn => 2
  | .error => 3

def name : Level → String
  | .trace => "TRACE"
  | .debug => "DEBUG"
  | .warn => "WARN"
  | .error => "ERROR"

end Level

inductive Record where
  | compiled (patterns shapes : Nat)
  /-- A pattern took the place of one with the same text. -/
  | shadowed (pattern old : Pattern)
  | unmatched (word : Word)
  | read (offset : Nat) (word : Word)
  /-- The shapes that are about to be tried. -/
  | decoding (shapes : List String)
deriving DecidableEq

namespace Record

def level : Record → Level
  | .compiled .. => .debug
  | .shadowed .. => .warn
  | .unmatched _ => .warn
  | .read .. => .trace
  | .decoding _ => .debug

/-- The part of the program that speaks. -/
def origin : Record → String
  | .compiled .. => "c8dasm::dasm::chip8::decoder"
  | .shadowed .. => "c8dasm::dasm::chip8::decoder"
  | .unmatched _ => "c8dasm::dasm::chip8::decoder"
  | .read .. => "c8dasm::dasm::chip8::reader"
  | .decoding _ => "c8dasm"

def text : Record → String
  | .compiled patterns shapes => s!"compiled {patterns} patterns into {shapes} shapes"
  | .shadowed pattern old =>
    s!"pattern {pattern.text} ({pattern.mnemonic}) shadows {old.text} ({old.mnemonic})"
  | .unmatched word => s!"could not match instruction {word.logText}, mapping to UNKNOWN {word.text}"
  | .read offset word => s!"{Hex.marked .upper 4 offset}: {word.logText}"
  | .decoding shapes => s!"decoding with shapes {Text.quotedList shapes}"

end Record

/-- A result and what was logged on the way to it. -/
structure Traced (α : Type) where
  value : α
  log : List Record
deriving DecidableEq

namespace Traced
variable {α β ε : Type}

/-- The same log for a changed result. -/
def map (f : α → β) (t : Traced α) : Traced β :=
  ⟨f t.value, t.log⟩

/-- Goes on with what succeeded, and stops at what failed. The log of what was done is kept in both cases. -/
def andThen (t : Traced (Except ε α)) (next : α → Traced (Except ε β)) : Traced (Except ε β) :=
  match t with
  | ⟨.error e, log⟩ => ⟨.error e, log⟩
  | ⟨.ok a, log⟩ =>
    let rest := next a
    ⟨rest.value, log ++ rest.log⟩

end Traced

end Chip8Disasm
