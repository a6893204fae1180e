import Chip8Disasm.Field
import Chip8Disasm.RunLength
import Chip8Disasm.TableError

/-! Layouts: how the words of one shape are cut into fields, from left to right. -/

namespace Chip8Disasm

/-- What of a word selects the instruction: its fixed nibbles, and nothing where an operand stands. -/
abbrev Key := List (Option UInt8)

/-- The slots that a word is cut into. -/
abbrev Layout := List Slot

namespace Layout

/-- The fields that nibbles are cut into, one a slot; slots that find no nibble left give empty fields. -/
def fields : Layout → List UInt8 → List Field
  | [], _ => []
  | slot :: slots, nibbles => slot.fill nibbles :: fields slots (nibbles.drop slot.width)

/-- The nibbles that opcode slots take. Those that operand slots take are left out, as are those behind the last
    slot. -/
def key : Layout → List UInt8 → Key
  | [], nibbles => nibbles.map fun _ => none
  | slot :: slots, nibbles =>
    (nibbles.take slot.width).map (if slot.kind.isOperand then fun _ => none else some) ++
      key slots (nibbles.drop slot.width)

/-- The layout of a mask: one slot for each run of equal characters. -/
def ofRuns (mask : List Char) : Layout :=
  (RunLength.runs mask).map fun run => ⟨.ofMaskChar run.1, run.2⟩

/-- The layout of a mask of four characters. -/
def ofMask? (mask : String) : Except TableError Layout :=
  if mask.toList.length = 4 then .ok (ofRuns mask.toList) else .error (.badMask mask)

end Layout

end Chip8Disasm
