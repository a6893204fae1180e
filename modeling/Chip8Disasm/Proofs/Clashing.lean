import Chip8Disasm.Pattern.Shipped
import Chip8Disasm.Proofs.Matching

/-! Patterns that share no word. Two patterns have a word in common unless they demand different digits in one place. -/

namespace Chip8Disasm

/-! ### Words from nibbles -/

theorem Nibble.ofByte_of_halves {a b : UInt8} (ha : low a = a) (hb : low b = b) : ofByte (16 * a + b) = [a, b] := by
  have hla := low_lt a
  have hlb := low_lt b
  rw [ha] at hla
  rw [hb] at hlb
  have whole : (16 * a + b).toNat = 16 * a.toNat + b.toNat := by
    simp only [UInt8.toNat_add, UInt8.toNat_mul, UInt8.reduceToNat]
    omega
  have hhigh : high (16 * a + b) = a := UInt8.toNat_inj.mp (by
    simp only [high, UInt8.toNat_div, whole, UInt8.reduceToNat]
    omega)
  have hlow : low (16 * a + b) = b := UInt8.toNat_inj.mp (by
    simp only [low, UInt8.toNat_mod, whole, UInt8.reduceToNat]
    omega)
  rw [ofByte, hhigh, hlow]

/-- Any four nibbles are those of a word. -/
theorem Word.exists_nibbles_eq {xs : List UInt8} (four : xs.length = 4) (nibbles : ∀ x ∈ xs, Nibble.low x = x) :
    ∃ w : Word, w.nibbles = xs := by
  match xs, four with
  | [a, b, c, d], _ =>
    have first := Nibble.ofByte_of_halves (nibbles a (by simp)) (nibbles b (by simp))
    have second := Nibble.ofByte_of_halves (nibbles c (by simp)) (nibbles d (by simp))
    exact ⟨⟨16 * a + b, 16 * c + d⟩, by simp [Word.nibbles, bytes, first, second]⟩

namespace Pattern
variable {p q : Pattern} {w : Word} {i : Nat} {x : UInt8}

/-! ### Demands -/

@[simp]
theorem length_key (p : Pattern) : p.key.length = 4 := by
  rw [key, List.length_map, p.length_cells]

theorem getElem?_key_eq_some_some_iff :
    p.key[i]? = some (some x) ↔ ∃ d : Fin 16, p.cells[i]? = some (.digit d) ∧ UInt8.ofNat d = x := by
  rw [key, List.getElem?_map, Option.map_eq_some_iff]
  constructor
  · rintro ⟨cell, hcell, fixed⟩
    cases cell with
    | operand letter => cases fixed
    | digit d => exact ⟨d, hcell, Option.some.inj fixed⟩
  · rintro ⟨d, hcell, rfl⟩
    exact ⟨_, hcell, rfl⟩

theorem low_of_demanded (demanded : p.key[i]? = some (some x)) : Nibble.low x = x := by
  have nibbles : ∀ d : Fin 16, Nibble.low (UInt8.ofNat d) = UInt8.ofNat d := by decide
  obtain ⟨d, -, rfl⟩ := getElem?_key_eq_some_some_iff.mp demanded
  exact nibbles d

theorem matches_iff_demands :
    p.Matches w ↔ ∀ (i : Nat) (x : UInt8), p.key[i]? = some (some x) → w.nibbles[i]? = some x := by
  rw [matches_iff_cells]
  constructor
  · intro fits i x demanded
    obtain ⟨d, hcell, rfl⟩ := getElem?_key_eq_some_some_iff.mp demanded
    exact fits i d hcell
  · intro fits i d hcell
    exact fits i _ (getElem?_key_eq_some_some_iff.mpr ⟨d, hcell, rfl⟩)

/-! ### Clashes -/

/-- Two patterns demand different digits in one place. -/
def Clashes (p q : Pattern) : Prop :=
  ∃ demands ∈ p.key.zip q.key, demands.1.isSome ∧ demands.2.isSome ∧ demands.1 ≠ demands.2

instance (p q : Pattern) : Decidable (p.Clashes q) :=
  inferInstanceAs (Decidable (∃ demands ∈ p.key.zip q.key, demands.1.isSome ∧ demands.2.isSome ∧ demands.1 ≠ demands.2))

theorem clashes_iff_demands :
    p.Clashes q ↔ ∃ (i : Nat) (x y : UInt8), p.key[i]? = some (some x) ∧ q.key[i]? = some (some y) ∧ x ≠ y := by
  constructor
  · rintro ⟨⟨demand, demand'⟩, both, some, some', different⟩
    obtain ⟨x, rfl⟩ := Option.isSome_iff_exists.mp some
    obtain ⟨y, rfl⟩ := Option.isSome_iff_exists.mp some'
    obtain ⟨i, here⟩ := List.mem_iff_getElem?.mp both
    obtain ⟨hx, hy⟩ := List.getElem?_zip_eq_some.mp here
    exact ⟨i, x, y, hx, hy, fun same => different (congrArg Option.some same)⟩
  · rintro ⟨i, x, y, hx, hy, different⟩
    have both : (p.key.zip q.key)[i]? = some (some x, some y) := List.getElem?_zip_eq_some.mpr ⟨hx, hy⟩
    exact ⟨_, List.mem_of_getElem? both, rfl, rfl, fun same => different (Option.some.inj same)⟩

/-- Patterns clash where they are written with different digits. -/
theorem clashes_iff_digits :
    p.Clashes q ↔ ∃ (i : Nat) (a b : Fin 16), p.text.toList[i]? = some (Hex.Letters.upper.digit a) ∧
      q.text.toList[i]? = some (Hex.Letters.upper.digit b) ∧ a ≠ b := by
  have apart : ∀ a b : Fin 16, UInt8.ofNat a ≠ UInt8.ofNat b ↔ a ≠ b := by decide
  simp only [clashes_iff_demands, getElem?_key_eq_some_some_iff, getElem?_text_eq_digit_iff]
  constructor
  · rintro ⟨i, _, _, ⟨a, ha, rfl⟩, ⟨b, hb, rfl⟩, different⟩
    exact ⟨i, a, b, ha, hb, (apart a b).mp different⟩
  · rintro ⟨i, a, b, ha, hb, different⟩
    exact ⟨i, _, _, ⟨a, ha, rfl⟩, ⟨b, hb, rfl⟩, (apart a b).mpr different⟩

theorem Clashes.not_matches (clash : p.Clashes q) (hp : p.Matches w) : ¬q.Matches w := by
  obtain ⟨i, x, y, hx, hy, different⟩ := clashes_iff_demands.mp clash
  intro hq
  have same := (matches_iff_demands.mp hp i x hx).symm.trans (matches_iff_demands.mp hq i y hy)
  exact different (Option.some.inj same)

/-! ### Common words -/

/-- The nibbles that one pattern or the other demands, and zero where neither demands one. -/
def meet (p q : Pattern) : List UInt8 :=
  List.zipWith (fun demand other => (demand.or other).getD 0) p.key q.key

theorem getElem?_meet_eq_some_iff : (p.meet q)[i]? = some x ↔
    ∃ demand other, p.key[i]? = some demand ∧ q.key[i]? = some other ∧ (demand.or other).getD 0 = x :=
  List.getElem?_zipWith_eq_some

theorem low_of_mem_meet (h : x ∈ p.meet q) : Nibble.low x = x := by
  obtain ⟨i, here⟩ := List.mem_iff_getElem?.mp h
  obtain ⟨demand, other, hp, hq, rfl⟩ := getElem?_meet_eq_some_iff.mp here
  cases demand with
  | some x => exact low_of_demanded hp
  | none =>
    cases other with
    | some y => exact low_of_demanded hq
    | none => rfl

/-- What one pattern says of a nibble, any other pattern says something of too. -/
theorem exists_getElem?_key {demand : Option UInt8} (here : p.key[i]? = some demand) (q : Pattern) :
    ∃ other, q.key[i]? = some other := by
  obtain ⟨hi, -⟩ := List.getElem?_eq_some_iff.mp here
  rw [p.length_key, ← q.length_key] at hi
  exact ⟨_, List.getElem?_eq_getElem hi⟩

theorem getElem?_meet_of_left (demanded : p.key[i]? = some (some x)) : (p.meet q)[i]? = some x := by
  obtain ⟨other, hq⟩ := exists_getElem?_key demanded q
  exact getElem?_meet_eq_some_iff.mpr ⟨_, other, demanded, hq, rfl⟩

theorem getElem?_meet_of_right (together : ¬p.Clashes q) (demanded : q.key[i]? = some (some x)) :
    (p.meet q)[i]? = some x := by
  obtain ⟨demand, hp⟩ := exists_getElem?_key demanded p
  refine getElem?_meet_eq_some_iff.mpr ⟨demand, _, hp, demanded, ?_⟩
  cases demand with
  | none => rfl
  | some y =>
    by_contra different
    exact together (clashes_iff_demands.mpr ⟨i, y, x, hp, demanded, different⟩)

theorem exists_common_word (together : ¬p.Clashes q) : ∃ w, p.Matches w ∧ q.Matches w := by
  have four : (p.meet q).length = 4 := by simp [meet]
  obtain ⟨w, hw⟩ := Word.exists_nibbles_eq four fun _ => low_of_mem_meet
  refine ⟨w, matches_iff_demands.mpr fun i x demanded => ?_, matches_iff_demands.mpr fun i x demanded => ?_⟩
  · rw [hw, getElem?_meet_of_left demanded]
  · rw [hw, getElem?_meet_of_right together demanded]

/-! ### The instruction set -/

/-- Rows of the instruction set have one shape or share no word. -/
theorem clashes_shipped : ∀ p ∈ shipped, ∀ q ∈ shipped, p.shape ≠ q.shape → p.Clashes q := by
  decide +kernel

theorem distinct_shipped : (shipped.map text).Nodup := by
  decide +kernel

end Pattern

end Chip8Disasm
