import Chip8Disasm.Nibble

/-! Fields, the parts that an instruction word is cut into. A field is fixed digits that select the
    instruction, or an operand: a register or a constant. -/

namespace Chip8Disasm

/-- What a run of nibbles stands for. -/
inductive FieldKind where
  /-- Digits that select the instruction. -/
  | opcode
  /-- One of the registers V0 to VF. -/
  | register
  /-- A number that belongs to the instruction. -/
  | constant
deriving DecidableEq

namespace FieldKind

/-- The kind that a mask character announces: N is a constant, X and Y are registers, all else is opcode. -/
def ofMaskChar : Char → FieldKind
  | 'N' => .constant
  | 'X' => .register
  | 'Y' => .register
  | _ => .opcode

/-- Operands are shown in a listing, opcode digits are not. -/
def isOperand : FieldKind → Bool
  | .opcode => false
  | .register => true
  | .constant => true

end FieldKind

structure Field where
  kind : FieldKind
  nibbles : List UInt8
deriving DecidableEq

namespace Field

/-- Whether a listing shows the field. -/
def isOperand (f : Field) : Bool :=
  f.kind.isOperand

def value (f : Field) : UInt32 :=
  Nibble.value f.nibbles

/-- A register field is named by its first nibble. -/
def register? (f : Field) : Option UInt8 :=
  match f.kind with
  | .register => f.nibbles.head?
  | _ => none

/-- A register is written by its name, any other field as a numeral with one digit a nibble. -/
def text (f : Field) : String :=
  match f.register? with
  | some number => "V" ++ Hex.numeral .upper 1 number.toNat
  | none => Nibble.markedText .upper f.nibbles

end Field

/-- A place in a layout: the kind of field and how many nibbles it takes. -/
structure Slot where
  kind : FieldKind
  width : Nat
deriving DecidableEq

/-- The field made of the next nibbles, as many as the slot takes and as there are. -/
def Slot.fill (s : Slot) (nibbles : List UInt8) : Field :=
  ⟨s.kind, nibbles.take s.width⟩

end Chip8Disasm
