import Chip8Disasm.Nibble

/-! Instruction words: two bytes, the upper one first, read as four nibbles. -/

namespace Chip8Disasm

/-- An instruction word as it stands in a program, before it is decoded. -/
structure Word where
  hi : UInt8
  lo : UInt8
deriving DecidableEq

/-- Bytes of the wrong number were offered as a word. -/
structure WordError where
  size : Nat
deriving DecidableEq

def WordError.message (e : WordError) : String :=
  s!"invalid data for instruction: expected 2 bytes, got {e.size}"

namespace Word

/-- The word that exactly two bytes hold. -/
def ofBytes? : List UInt8 → Except WordError Word
  | [hi, lo] => .ok ⟨hi, lo⟩
  | bytes => .error ⟨bytes.length⟩

def ofUInt16 (value : UInt16) : Word :=
  ⟨(value / 256).toUInt8, value.toUInt8⟩

def toUInt16 (w : Word) : UInt16 :=
  w.hi.toUInt16 * 256 + w.lo.toUInt16

def bytes (w : Word) : List UInt8 :=
  [w.hi, w.lo]

/-- The four nibbles of a word, the most significant first. -/
def nibbles (w : Word) : List UInt8 :=
  w.bytes.flatMap Nibble.ofByte

/-- A word as a numeral of four digits. -/
def text (w : Word) : String :=
  Hex.marked .upper 4 w.toUInt16.toNat

/-- A word as log records name it. -/
def logText (w : Word) : String :=
  s!"RawInstruction<{w.text}>"

/-! ### Basic facts -/

@[simp]
theorem length_nibbles (w : Word) : w.nibbles.length = 4 := rfl

theorem toNat_toUInt16 (w : Word) : w.toUInt16.toNat = 256 * w.hi.toNat + w.lo.toNat := by
  have h := w.hi.toNat_lt
  have l := w.lo.toNat_lt
  simp only [toUInt16, UInt16.toNat_add, UInt16.toNat_mul, UInt8.toNat_toUInt16, UInt16.reduceToNat]
  omega

@[simp]
theorem ofUInt16_toUInt16 (w : Word) : ofUInt16 w.toUInt16 = w := by
  have h := w.hi.toNat_lt
  have l := w.lo.toNat_lt
  have value := w.toNat_toUInt16
  obtain ⟨hi, lo⟩ := w
  simp only [ofUInt16, Word.mk.injEq]
  refine ⟨UInt8.toNat_inj.mp ?_, UInt8.toNat_inj.mp ?_⟩
  · simp only [UInt16.toNat_toUInt8, UInt16.toNat_div, value, UInt16.reduceToNat] at *
    omega
  · simp only [UInt16.toNat_toUInt8, value] at *
    omega

@[simp]
theorem toUInt16_ofUInt16 (value : UInt16) : (ofUInt16 value).toUInt16 = value := by
  have := value.toNat_lt
  apply UInt16.toNat_inj.mp
  simp only [toNat_toUInt16, ofUInt16, UInt16.toNat_toUInt8, UInt16.toNat_div, UInt16.reduceToNat]
  omega

/-- Words with the same nibbles are the same. -/
theorem nibbles_injective {v w : Word} (h : v.nibbles = w.nibbles) : v = w := by
  simp only [nibbles, bytes, Nibble.ofByte, List.flatMap_cons, List.flatMap_nil, List.append_nil, List.cons_append,
    List.nil_append, List.cons.injEq, and_true] at h
  obtain ⟨h₁, h₂, h₃, h₄⟩ := h
  obtain ⟨vh, vl⟩ := v
  obtain ⟨wh, wl⟩ := w
  simp only [Word.mk.injEq]
  exact ⟨UInt8.toNat_inj.mp (by rw [Nibble.toNat_eq, h₁, h₂, ← Nibble.toNat_eq]),
    UInt8.toNat_inj.mp (by rw [Nibble.toNat_eq, h₃, h₄, ← Nibble.toNat_eq])⟩

end Word

end Chip8Disasm
