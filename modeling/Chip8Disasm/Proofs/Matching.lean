import Chip8Disasm.Pattern.Basic
import Chip8Disasm.Proofs.Cutting
import Chip8Disasm.Word

/-! Patterns and the words that fit them. A pattern is its shape together with its key, and a word fits a pattern
    exactly if the layout of the shape projects the word to that key. -/

namespace Chip8Disasm

/-! ### Cells -/

namespace Cell

theorem mem_all (cell : Cell) : cell ∈ all := by
  cases cell with
  | digit d => exact List.mem_append_left _ (List.mem_map_of_mem (List.mem_finRange d))
  | operand letter => cases letter <;> simp [all]

theorem char_injective {a b : Cell} (h : a.char = b.char) : a = b := by
  have distinct : ∀ a ∈ all, ∀ b ∈ all, a.char = b.char → a = b := by decide +kernel
  exact distinct a a.mem_all b b.mem_all h

theorem ofChar?_eq_some_iff {c : Char} {cell : Cell} : ofChar? c = some cell ↔ cell.char = c := by
  have sound : ∀ {other : Cell}, ofChar? c = some other → other.char = c := by
    intro other h
    have := List.find?_some h
    simpa using this
  constructor
  · exact sound
  · rintro rfl
    obtain ⟨other, h⟩ : ∃ other, ofChar? cell.char = some other :=
      Option.isSome_iff_exists.mp (List.find?_isSome.mpr ⟨cell, cell.mem_all, by simp⟩)
    rw [h, char_injective (sound h)]

theorem mapM_ofChar?_eq_some_iff {cs : List Char} {cells : List Cell} :
    cs.mapM ofChar? = some cells ↔ cells.map char = cs := by
  induction cs generalizing cells with
  | nil => simp [eq_comm]
  | cons c cs ih =>
    rw [List.mapM_cons]
    constructor
    · intro h
      obtain ⟨cell, hc, h⟩ := Option.bind_eq_some_iff.mp h
      obtain ⟨rest, hr, h⟩ := Option.bind_eq_some_iff.mp h
      obtain rfl := Option.some.inj h
      rw [List.map_cons, ofChar?_eq_some_iff.mp hc, ih.mp hr]
    · intro h
      obtain ⟨cell, rest, rfl, hc, hr⟩ := List.map_eq_cons_iff.mp h
      rw [ofChar?_eq_some_iff.mpr hc, ih.mpr hr]
      rfl

/-- A cell is what it leaves to the mask together with what it demands. -/
theorem eq_of_parts {a b : Cell} (hm : a.maskChar = b.maskChar) (hf : a.fixed? = b.fixed?) : a = b := by
  have apart : ∀ a ∈ all, ∀ b ∈ all, a.maskChar = b.maskChar → a.fixed? = b.fixed? → a = b := by decide +kernel
  exact apart a a.mem_all b b.mem_all hm hf

end Cell

/-! ### Texts, shapes and keys -/

namespace Pattern

@[simp]
theorem toList_text (p : Pattern) : p.text.toList = p.cells.map Cell.char := String.toList_ofList

@[simp]
theorem toList_shape (p : Pattern) : p.shape.toList = p.cells.map Cell.maskChar := String.toList_ofList

theorem text_eq_iff_cells {p q : Pattern} : p.text = q.text ↔ p.cells = q.cells := by
  rw [← String.toList_inj, toList_text, toList_text]
  exact (List.map_injective_iff.mpr fun _ _ => Cell.char_injective).eq_iff

/-- Patterns with one shape and one key are written alike. -/
theorem text_eq_iff {p q : Pattern} : p.text = q.text ↔ p.shape = q.shape ∧ p.key = q.key := by
  rw [text_eq_iff_cells, ← String.toList_inj, toList_shape, toList_shape]
  constructor
  · intro h
    simp only [key, h, and_self]
  · rintro ⟨hs, hk⟩
    refine List.ext_getElem (by rw [p.length_cells, q.length_cells]) fun i hi hj => Cell.eq_of_parts ?_ ?_
    · simpa [hi, hj] using congrArg (·[i]?) hs
    · simpa [key, hi, hj] using congrArg (·[i]?) hk

/-- Every pattern is read from its text. -/
theorem ofText?_eq_ok_iff {text mnemonic : String} {p : Pattern} :
    ofText? text mnemonic = .ok p ↔ p.text = text ∧ p.mnemonic = mnemonic := by
  unfold ofText?
  constructor
  · intro h
    split at h
    · cases h
    · rename_i cells hcells
      split at h
      · cases h
        exact ⟨by rw [← String.toList_inj, toList_text, Cell.mapM_ofChar?_eq_some_iff.mp hcells], rfl⟩
      · cases h
  · rintro ⟨rfl, rfl⟩
    rw [Cell.mapM_ofChar?_eq_some_iff.mpr p.toList_text.symm]
    simp only [p.length_cells, ↓reduceDIte]

/-! ### Words that fit -/

/-- A word fits a pattern if each of its nibbles is the digit that the pattern has there, where it has one. -/
def Matches (p : Pattern) (w : Word) : Prop :=
  ∀ (i : Nat) (d : Fin 16), p.text.toList[i]? = some (Hex.Letters.upper.digit d) → w.nibbles[i]? = some (UInt8.ofNat d)

/-- A pattern is written with a digit where it has a cell for it. -/
theorem getElem?_text_eq_digit_iff {p : Pattern} {i : Nat} {d : Fin 16} :
    p.text.toList[i]? = some (Hex.Letters.upper.digit d) ↔ p.cells[i]? = some (.digit d) := by
  rw [toList_text, List.getElem?_map, Option.map_eq_some_iff]
  constructor
  · rintro ⟨cell, hcell, hc⟩
    rw [hcell, Cell.char_injective (b := .digit d) hc]
  · intro h
    exact ⟨_, h, rfl⟩

theorem matches_iff_cells {p : Pattern} {w : Word} :
    p.Matches w ↔ ∀ (i : Nat) (d : Fin 16), p.cells[i]? = some (.digit d) → w.nibbles[i]? = some (UInt8.ofNat d) := by
  simp only [Matches, getElem?_text_eq_digit_iff]

theorem length_toList_shape (p : Pattern) : p.shape.toList.length = 4 := by
  rw [toList_shape, List.length_map, p.length_cells]

theorem length_shape (p : Pattern) (w : Word) : p.shape.toList.length = w.nibbles.length :=
  p.length_toList_shape.trans w.length_nibbles.symm

theorem ofMask?_shape (p : Pattern) : Layout.ofMask? p.shape = .ok (.ofRuns p.shape.toList) :=
  Layout.ofMask?_of_four p.length_toList_shape

/-- What the layout of a shape keeps of a word. -/
theorem key_ofRuns_shape (p : Pattern) (w : Word) :
    (Layout.ofRuns p.shape.toList).key w.nibbles =
      List.zipWith (fun cell x => cell.fixed?.map fun _ => x) p.cells w.nibbles := by
  rw [Layout.key_ofRuns (p.length_shape w), toList_shape, List.zipWith_map_left]
  congr 1
  funext cell x
  cases cell with
  | digit d => rfl
  | operand letter => cases letter <;> rfl

/-- A word fits a pattern exactly if the layout of its shape finds the key in the word. -/
theorem matches_iff_key {p : Pattern} {w : Word} :
    p.Matches w ↔ (Layout.ofRuns p.shape.toList).key w.nibbles = p.key := by
  rw [matches_iff_cells, key_ofRuns_shape, key, List.ext_getElem?_iff]
  refine forall_congr' fun i => ?_
  rw [List.getElem?_zipWith, List.getElem?_map]
  cases hc : p.cells[i]? with
  | none => simp
  | some cell =>
    obtain ⟨hi, -⟩ := List.getElem?_eq_some_iff.mp hc
    obtain ⟨x, hx⟩ : ∃ x, w.nibbles[i]? = some x :=
      ⟨_, List.getElem?_eq_getElem (by rwa [w.length_nibbles, ← p.length_cells])⟩
    rw [hx]
    cases cell with
    | digit d => simp [Cell.fixed?]
    | operand letter => simp [Cell.fixed?]

instance (p : Pattern) (w : Word) : Decidable (p.Matches w) :=
  decidable_of_iff' _ matches_iff_key

end Pattern

end Chip8Disasm
