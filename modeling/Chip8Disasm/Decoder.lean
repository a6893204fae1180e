import Chip8Disasm.Index
import Chip8Disasm.Instruction
import Chip8Disasm.Log
import Chip8Disasm.Pattern.Shipped

/-! Decoders, which tell what instruction a word is. A decoder tries the shapes of its table in the order in which
    they first appear there, and in each shape looks up the nibbles that the shape leaves fixed. -/

namespace Chip8Disasm

/-- What becomes of a pattern that the table has already. -/
inductive Policy where
  /-- The table is refused. -/
  | reject
  /-- The later row takes the place of the earlier one. -/
  | lastWins
deriving DecidableEq

/-- Tables are strict unless shadowing is asked for. -/
instance : Inhabited Policy where
  default := .reject

/-- The patterns of one shape by their keys, and how words of the shape are cut. -/
structure Group where
  shape : String
  layout : Layout
  index : List (Key × Pattern)
deriving DecidableEq

namespace Group

/-- The group of a shape that has no pattern yet. -/
def ofShape? (shape : String) : Except TableError Group :=
  (Layout.ofMask? shape).map fun layout => ⟨shape, layout, []⟩

/-- Enters a pattern of the group's shape. -/
def add (policy : Policy) (p : Pattern) (g : Group) : Traced (Except TableError Group) :=
  let entered := { g with index := Index.put p.key p g.index }
  match Index.get? p.key g.index, policy with
  | none, _ => ⟨.ok entered, []⟩
  | some old, .reject => ⟨.error (.collision p.text old.mnemonic p.mnemonic), []⟩
  | some old, .lastWins => ⟨.ok entered, [.shadowed p old]⟩

def decode? (w : Word) (g : Group) : Option Instruction :=
  (Index.get? (g.layout.key w.nibbles) g.index).map fun p => .ofLayout g.layout p.mnemonic w

/-- Enters a pattern into the group of its shape, which is opened at the end if there is none. -/
def addTo (policy : Policy) (p : Pattern) : List Group → Traced (Except TableError (List Group))
  | [] =>
    match ofShape? p.shape with
    | .error e => ⟨.error e, []⟩
    | .ok g => (g.add policy p).map fun added => added.map fun g => [g]
  | g :: gs =>
    if g.shape = p.shape then (g.add policy p).map fun added => added.map fun g => g :: gs
    else (addTo policy p gs).map fun added => added.map fun gs => g :: gs

/-- Enters patterns one after the other, up to the first that is refused. -/
def addAll (policy : Policy) : List Pattern → List Group → Traced (Except TableError (List Group))
  | [], gs => ⟨.ok gs, []⟩
  | p :: ps, gs => (addTo policy p gs).andThen (addAll policy ps)

end Group

/-- A compiled table: a group for each of its shapes. -/
structure Decoder where
  groups : List Group
deriving DecidableEq

namespace Decoder

def compile (policy : Policy) (ps : List Pattern) : Traced (Except TableError Decoder) :=
  (Group.addAll policy ps []).andThen fun groups => ⟨.ok ⟨groups⟩, [.compiled ps.length groups.length]⟩

/-- The shapes, in the order in which they are tried. -/
def shapes (d : Decoder) : List String :=
  d.groups.map Group.shape

/-- The number of patterns that words can be decoded with. -/
def size (d : Decoder) : Nat :=
  d.groups.foldr (fun g rest => g.index.length + rest) 0

def isEmpty (d : Decoder) : Bool :=
  d.size = 0

/-- What a word is if it fits a pattern. The first shape that knows the word decides. -/
def decode? (d : Decoder) (w : Word) : Option Instruction :=
  d.groups.findSome? fun g => g.decode? w

/-- What a word is. A word that fits no pattern is unknown, and that is logged. -/
def decode (d : Decoder) (w : Word) : Traced Instruction :=
  match d.decode? w with
  | some i => ⟨i, []⟩
  | none => ⟨.unknown w, [.unmatched w]⟩

/-! ### The shipped decoder -/

/-- The shipped table has no pattern twice. -/
theorem isSome_compile_shipped : (compile .reject Pattern.shipped).value.toOption.isSome = true := by
  decide +kernel

/-- The decoder of the CHIP-8 instruction set. -/
def shipped : Decoder :=
  (compile .reject Pattern.shipped).value.toOption.get isSome_compile_shipped

theorem ok_get_toOption {ε α : Type} (result : Except ε α) (h : result.toOption.isSome = true) :
    result = .ok (result.toOption.get h) := by
  cases result with
  | ok a => rfl
  | error e => simp [Except.toOption] at h

theorem compile_shipped : (compile .reject Pattern.shipped).value = .ok shipped :=
  ok_get_toOption _ isSome_compile_shipped

end Decoder

end Chip8Disasm
