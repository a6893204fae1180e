import Chip8Disasm.Pattern.Shipped
import Chip8Disasm.Proofs.Numerals
import Chip8Disasm.Proofs.Parsing

/-! Keys from patterns and keys from words. A pattern's key is made of its characters and a word's of the runs of a mask;
    they meet exactly if the word has the digits of the pattern, and with the shape they give the pattern back. -/

namespace Chip8Disasm

/-! ### Cells -/

namespace Cell

theorem char_ne_filler (cell : Cell) : cell.char ≠ filler := by
  have letters : ∀ cell ∈ all, cell.char ≠ filler := by decide +kernel
  exact letters cell cell.mem_all

/-- A cell stands in one of the two masks, and the other leaves it out. -/
theorem parted (cell : Cell) : cell.fixedChar = filler ∧ cell.maskChar = cell.char ∨
    cell.fixedChar = cell.char ∧ cell.maskChar = filler := by
  cases cell with
  | digit d => exact .inr ⟨rfl, rfl⟩
  | operand letter => exact .inl ⟨rfl, rfl⟩

end Cell

namespace Pattern

/-! ### Masks -/

@[simp]
theorem toList_fixedMask (p : Pattern) : p.fixedMask.toList = p.cells.map Cell.fixedChar := String.toList_ofList

/-- Each character of a pattern stands in one of its two masks at the same place, and in the other a filler. -/
theorem masks_at {p : Pattern} {i : Nat} {c : Char} (h : p.text.toList[i]? = some c) : c ≠ '_' ∧
    (p.fixedMask.toList[i]? = some '_' ∧ p.shape.toList[i]? = some c ∨
      p.fixedMask.toList[i]? = some c ∧ p.shape.toList[i]? = some '_') := by
  rw [toList_text, List.getElem?_map] at h
  obtain ⟨cell, hcell, rfl⟩ := Option.map_eq_some_iff.mp h
  rw [toList_fixedMask, toList_shape, List.getElem?_map, List.getElem?_map, hcell]
  simp only [Option.map_some, Option.some.injEq]
  exact ⟨cell.char_ne_filler, cell.parted⟩

/-! ### Words -/

theorem matches_iff_digits {p : Pattern} {w : Word} :
    p.Matches w ↔ ∀ (i d : Nat) (c : Char), p.text.toList[i]? = some c → "0123456789ABCDEF".toList[d]? = some c →
      w.nibbles[i]? = some (UInt8.ofNat d) := by
  constructor
  · intro fits i d c here digit
    obtain ⟨hd, -⟩ := List.getElem?_eq_some_iff.mp digit
    have written := (Hex.Letters.upper.getElem?_alphabet hd).symm.trans digit
    exact fits i ⟨d, hd⟩ (here.trans written.symm)
  · intro agrees i d here
    exact agrees i d _ here (Hex.Letters.upper.getElem?_alphabet d.isLt)

/-- A text of four digits and operand letters, and no other, is a pattern. The layout of the pattern's shape finds the
    pattern's key in a word exactly if the word has the digits of the text in their places. The two masks of the pattern
    share the characters of the text out, and a text is known from the shape and the key. -/
theorem projection_meets_key (text mnemonic : String) :
    ((∃ p, ofText? text mnemonic = .ok p) ↔
      text.toList.length = 4 ∧ ∀ c ∈ text.toList, c ∈ "0123456789ABCDEFNXY".toList) ∧
    (∀ e, ofText? text mnemonic = .error e ↔
      ¬(text.toList.length = 4 ∧ ∀ c ∈ text.toList, c ∈ "0123456789ABCDEFNXY".toList) ∧ e = .badPattern text) ∧
    ∀ p, ofText? text mnemonic = .ok p →
      (∃ layout, Layout.ofMask? p.shape = .ok layout ∧ ∀ w : Word, layout.key w.nibbles = p.key ↔
        ∀ (i d : Nat) (c : Char), text.toList[i]? = some c → "0123456789ABCDEF".toList[d]? = some c →
          w.nibbles[i]? = some (UInt8.ofNat d)) ∧
      p.fixedMask.toList.length = 4 ∧ p.shape.toList.length = 4 ∧
      (∀ (i : Nat) (c : Char), text.toList[i]? = some c → c ≠ '_' ∧
        (p.fixedMask.toList[i]? = some '_' ∧ p.shape.toList[i]? = some c ∨
          p.fixedMask.toList[i]? = some c ∧ p.shape.toList[i]? = some '_')) ∧
      ∀ other mnemonic' q, ofText? other mnemonic' = .ok q → (p.shape = q.shape ∧ p.key = q.key ↔ text = other) := by
  refine ⟨⟨fun ⟨p, hp⟩ => ?_, fun wellFormed => exists_ofText? wellFormed mnemonic⟩, fun e => ofText?_eq_error_iff,
    fun p hp => ?_⟩
  · obtain ⟨rfl, -⟩ := ofText?_eq_ok_iff.mp hp
    exact p.wellFormed_text
  · obtain ⟨rfl, -⟩ := ofText?_eq_ok_iff.mp hp
    refine ⟨⟨_, p.ofMask?_shape, fun w => matches_iff_key.symm.trans matches_iff_digits⟩, ?_, ?_, fun i c => masks_at,
      fun other mnemonic' q hq => ?_⟩
    · rw [toList_fixedMask, List.length_map, p.length_cells]
    · exact p.length_toList_shape
    · obtain ⟨rfl, -⟩ := ofText?_eq_ok_iff.mp hq
      exact text_eq_iff.symm

/-- A word that has the digits of a pattern in their places, and one that has not. -/
theorem projection_meets_key_skip :
    ∃ p layout, ofText? "EX9E" "SKPR" = .ok p ∧ Layout.ofMask? p.shape = .ok layout ∧
      layout.key (⟨0xE4, 0x9E⟩ : Word).nibbles = p.key ∧ layout.key (⟨0xE4, 0xA1⟩ : Word).nibbles ≠ p.key := by
  have written : (row 0xE (.operand .x) 0x9 0xE "SKPR").text = "EX9E" := by decide +kernel
  have fits : (row 0xE (.operand .x) 0x9 0xE "SKPR").Matches ⟨0xE4, 0x9E⟩ := by decide +kernel
  have accepted := ofText?_eq_ok_iff.mpr ⟨written, rfl⟩
  obtain ⟨⟨layout, cut, meets⟩, -⟩ := (projection_meets_key "EX9E" "SKPR").2.2 _ accepted
  refine ⟨_, layout, accepted, cut, (meets _).mpr ?_, fun same => ?_⟩
  · exact written ▸ matches_iff_digits.mp fits
  · exact absurd ((meets _).mp same 2 9 '9' rfl rfl) (by decide)

end Pattern

end Chip8Disasm
