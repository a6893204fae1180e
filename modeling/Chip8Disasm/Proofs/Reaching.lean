import Chip8Disasm.Proofs.Clashing
import Chip8Disasm.Proofs.Rearranging

/-! Rows that are reached by all their words. A row may lose words to rows of the shapes that are tried before its own,
    and it loses none exactly if it clashes with all of these rows. -/

namespace Chip8Disasm

/-! ### Rows that decide -/

namespace Decides
variable {ps : List Pattern} {w : Word} {p q : Pattern}

theorem exists_of_matches (hp : p ∈ ps) (fits : p.Matches w) : ∃ q, Decides ps w q := by
  cases h : (Decoder.ofRows ps).decode? w with
  | none => exact absurd fits (Decoder.decode?_ofRows_eq_none_iff.mp h p hp)
  | some i =>
    obtain ⟨q, decides, -⟩ := Decoder.exists_decides h
    exact ⟨q, decides⟩

/-- Of rows with different texts, the one that decides is known from its shape. -/
theorem eq_of_shape (distinct : (ps.map Pattern.text).Nodup) (decides : Decides ps w q) (hp : p ∈ ps)
    (fits : p.Matches w) (same : q.shape = p.shape) : q = p :=
  List.inj_on_of_nodup_map distinct decides.mem hp (Pattern.text_eq_of_matches decides.fits fits same)

end Decides

section
variable {ps : List Pattern} {p : Pattern}

/-- A row is reached by all its words exactly if it clashes with each row of the shapes that come before. -/
theorem decides_all_iff (distinct : (ps.map Pattern.text).Nodup) (hp : p ∈ ps) :
    (∀ w, p.Matches w → Decides ps w p) ↔
      ∀ q ∈ ps, (ps.map Pattern.shape).idxOf q.shape < (ps.map Pattern.shape).idxOf p.shape → p.Clashes q := by
  constructor
  · intro reached q hq earlier
    by_contra together
    obtain ⟨w, fits, other⟩ := Pattern.exists_common_word together
    have := (reached w fits).earliest q hq other
    omega
  · intro clash w fits
    obtain ⟨q, decides⟩ := Decides.exists_of_matches hp fits
    have notEarlier : ¬(ps.map Pattern.shape).idxOf q.shape < (ps.map Pattern.shape).idxOf p.shape := fun earlier =>
      (clash q decides.mem earlier).not_matches fits decides.fits
    have place := Nat.le_antisymm (decides.earliest p hp fits) (Nat.le_of_not_lt notEarlier)
    have shape := (List.idxOf_inj (List.mem_map_of_mem decides.mem)).mp place
    exact decides.eq_of_shape distinct hp fits shape ▸ decides

end

/-! ### Words and mnemonics -/

namespace Decoder

/-- A word is an instruction with the mnemonic. -/
def Names (d : Decoder) (w : Word) (mnemonic : String) : Prop :=
  ∃ i, d.decode? w = some i ∧ (d.decode w).value = i ∧ i.mnemonic = mnemonic

variable {ps : List Pattern} {p q : Pattern}

theorem names_ofRows_iff {w : Word} {mnemonic : String} (decides : Decides ps w q) :
    (ofRows ps).Names w mnemonic ↔ q.mnemonic = mnemonic := by
  have found := decode?_eq_of_decides decides
  constructor
  · rintro ⟨i, h, -, rfl⟩
    obtain rfl := Option.some.inj (found.symm.trans h)
    rfl
  · rintro rfl
    exact ⟨q.decoded w, found, by rw [decode, found], rfl⟩

/-- Where no mnemonic comes twice, the row that decides is known from the mnemonic. -/
theorem names_all_iff (mnemonics : (ps.map Pattern.mnemonic).Nodup) (hp : p ∈ ps) :
    (∀ w, p.Matches w → (ofRows ps).Names w p.mnemonic) ↔ ∀ w, p.Matches w → Decides ps w p := by
  refine forall_congr' fun w => forall_congr' fun fits => ?_
  obtain ⟨q, decides⟩ := Decides.exists_of_matches hp fits
  rw [names_ofRows_iff decides]
  constructor
  · intro same
    exact List.inj_on_of_nodup_map mnemonics decides.mem hp same ▸ decides
  · intro reached
    rw [decides.unique reached]

/-- The shapes of a decoder stand in the order of the first rows. -/
theorem idxOf_shapes_lt_iff (hp : p ∈ ps) (hq : q ∈ ps) :
    (ofRows ps).shapes.idxOf q.shape < (ofRows ps).shapes.idxOf p.shape ↔
      (ps.map Pattern.shape).idxOf q.shape < (ps.map Pattern.shape).idxOf p.shape := by
  rw [shapes_ofRows]
  exact idxOf_eraseDups_lt_iff (List.mem_map_of_mem hq) (List.mem_map_of_mem hp)

theorem clashes_shipped_of_earlier {p q : Pattern} (hp : p ∈ Pattern.shipped) (hq : q ∈ Pattern.shipped)
    (earlier : shipped.shapes.idxOf q.shape < shipped.shapes.idxOf p.shape) : p.Clashes q := by
  refine Pattern.clashes_shipped p hp q hq fun same => ?_
  rw [same] at earlier
  exact Nat.lt_irrefl _ earlier

/-- Of rows with different texts and different mnemonics, one is what all its words are exactly if each row whose shape
    is tried before has another digit in some place. The rows of the instruction set are so. -/
theorem names_every_word_iff :
    (∀ (policy : Policy) (ps : List Pattern), (ps.map Pattern.text).Nodup → (ps.map Pattern.mnemonic).Nodup →
      ∃ d, (compile policy ps).value = .ok d ∧ ∀ p ∈ ps,
        (∀ w, p.Matches w → d.Names w p.mnemonic) ↔
          ∀ q ∈ ps, d.shapes.idxOf q.shape < d.shapes.idxOf p.shape →
            ∃ (i : Nat) (a b : Fin 16), p.text.toList[i]? = some (Hex.Letters.upper.digit a) ∧
              q.text.toList[i]? = some (Hex.Letters.upper.digit b) ∧ a ≠ b) ∧
    ∀ p ∈ Pattern.shipped,
      (∀ q ∈ Pattern.shipped, shipped.shapes.idxOf q.shape < shipped.shapes.idxOf p.shape →
        ∃ (i : Nat) (a b : Fin 16), p.text.toList[i]? = some (Hex.Letters.upper.digit a) ∧
          q.text.toList[i]? = some (Hex.Letters.upper.digit b) ∧ a ≠ b) ∧
      ∀ w, p.Matches w → shipped.Names w p.mnemonic := by
  simp only [← Pattern.clashes_iff_digits]
  constructor
  · intro policy ps texts mnemonics
    refine ⟨ofRows ps, by rw [compile_of_distinct policy texts], fun p hp => ?_⟩
    rw [names_all_iff mnemonics hp, decides_all_iff texts hp]
    exact forall_congr' fun q => forall_congr' fun hq => by rw [idxOf_shapes_lt_iff hp hq]
  · intro p hp
    have reached := (decides_all_iff Pattern.distinct_shipped hp).mpr fun q hq earlier =>
      clashes_shipped_of_earlier hp hq (by rwa [shipped_eq_ofRows, idxOf_shapes_lt_iff hp hq])
    refine ⟨fun q hq => clashes_shipped_of_earlier hp hq, fun w fits => ?_⟩
    rw [shipped_eq_ofRows, names_ofRows_iff (reached w fits)]

/-- Of two rows that share a word, the one whose shape is tried first has all its words and the other has not. -/
theorem names_every_word_iff_layered :
    ∃ d, (compile .reject layered).value = .ok d ∧ (∀ w, layered[0].Matches w → d.Names w "CLEAR") ∧
      ¬∀ w, layered[1].Matches w → d.Names w "INVOKE" := by
  obtain ⟨d, compiled, rows⟩ := names_every_word_iff.1 .reject layered (by decide +kernel) (by decide +kernel)
  obtain rfl := eq_ofRows_of_compile compiled
  refine ⟨_, compiled, (rows layered[0] (by decide +kernel)).mpr fun q _ earlier => ?_, fun all => ?_⟩
  · have first : (ofRows layered).shapes.idxOf layered[0].shape = 0 := by decide +kernel
    omega
  · have differ := (rows layered[1] (by decide +kernel)).mp all layered[0] (by decide +kernel) (by decide +kernel)
    exact absurd (Pattern.clashes_iff_digits.mpr differ) (by decide +kernel)

end Decoder

end Chip8Disasm
