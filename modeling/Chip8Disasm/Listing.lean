import Chip8Disasm.Decoder
import Chip8Disasm.Reader

/-! Listings of whole programs. -/

namespace Chip8Disasm.Listing

/-- Decodes the words that a reader still gives. What was decoded and logged so far is held with the latest first,
    so that long programs need no stack. -/
def collect (d : Decoder) (r : Reader) (decoded : List Instruction) (log : List Record) :
    Traced (Except StreamError (List Instruction)) :=
  match h : r.next with
  | ⟨(.word w, r'), heard⟩ =>
    have := Reader.weight_next h
    let i := d.decode w
    collect d r' (i.value :: decoded) (i.log.reverseAux (heard.reverseAux log))
  | ⟨(.ended, _), heard⟩ => ⟨.ok decoded.reverse, (heard.reverseAux log).reverse⟩
  | ⟨(.failed e, _), heard⟩ => ⟨.error e, (heard.reverseAux log).reverse⟩
termination_by r.source.weight

/-- Decodes every word of a source. A word that is unknown does not matter, a source that fails does. -/
def ofSource (d : Decoder) (source : Source) : Traced (Except StreamError (List Instruction)) :=
  collect d (.ofSource source) [] []

/-- The lines of a program of the CHIP-8. -/
def disassemble (program : List UInt8) : Traced (Except StreamError (List String)) :=
  (ofSource .shipped (.ofBytes program)).map fun result => result.map fun is => is.map Instruction.text

/-- A listing as text, with every line ended. -/
def print (is : List Instruction) : String :=
  String.join (is.map fun i => i.text ++ "\n")

end Chip8Disasm.Listing
