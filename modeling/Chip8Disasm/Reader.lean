import Chip8Disasm.Log
import Chip8Disasm.Source

/-! Readers, which take a source apart into words. -/

namespace Chip8Disasm

/-- Why a source holds no further word although it is not at its end. -/
inductive StreamError where
  /-- The source ends in the middle of a word, whose first byte stands at the offset. -/
  | dangling (offset : Nat) (byte : UInt8)
  /-- A read failed. -/
  | failure (fault : Fault)
deriving DecidableEq

def StreamError.message : StreamError → String
  | .dangling offset byte =>
    s!"read incomplete instruction at offset {Hex.marked .upper 4 offset}: [{Hex.numeral .upper 2 byte.toNat}]"
  | .failure fault => fault.message

inductive Reading where
  | word (w : Word)
  | ended
  | failed (e : StreamError)
deriving DecidableEq

/-- A reader of words: its source, the offset of the next word, and whether the reader has stopped. -/
structure Reader where
  source : Source
  offset : Nat
  stopped : Bool
deriving DecidableEq

namespace Reader

def ofSource (source : Source) : Reader :=
  ⟨source, 0, false⟩

/-- Reads the next word. After an answer that is not a word the reader has stopped, and leaves its source alone. -/
def next (r : Reader) : Traced (Reading × Reader) :=
  if r.stopped then ⟨(.ended, r), []⟩
  else
    match Source.fill 2 r.source with
    | ⟨_, some fault, rest⟩ => ⟨(.failed (.failure fault), ⟨rest, r.offset, true⟩), []⟩
    | ⟨[], none, rest⟩ => ⟨(.ended, ⟨rest, r.offset, true⟩), []⟩
    | ⟨[byte], none, rest⟩ => ⟨(.failed (.dangling r.offset byte), ⟨rest, r.offset, true⟩), []⟩
    | ⟨hi :: lo :: _, none, rest⟩ =>
      ⟨(.word ⟨hi, lo⟩, ⟨rest, r.offset + 2, false⟩), [.read r.offset ⟨hi, lo⟩]⟩

theorem weight_next {r r' : Reader} {w : Word} {log : List Record} (h : r.next = ⟨(.word w, r'), log⟩) :
    r'.source.weight < r.source.weight := by
  unfold next at h
  split at h
  · cases h
  · have kept := Source.weight_fill 2 r.source
    split at h <;> rename_i full <;> cases h
    rw [full] at kept
    simp only [List.length_cons] at kept
    dsimp only
    omega

/-- Reads on to the first answer that is not a word. Gives the number of words that were passed over, added to
    `count`, the error if there was one, and the reader afterwards. -/
def skip (r : Reader) (count : Nat) : Nat × Option StreamError × Reader :=
  match h : r.next with
  | ⟨(.word _, r'), _⟩ =>
    have := weight_next h
    skip r' (count + 1)
  | ⟨(.ended, r'), _⟩ => (count, none, r')
  | ⟨(.failed e, r'), _⟩ => (count, some e, r')
termination_by r.source.weight

end Reader

end Chip8Disasm
