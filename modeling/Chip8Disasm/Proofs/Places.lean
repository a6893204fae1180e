import Chip8Disasm.Proofs.Numerals

/-! The places of a hexadecimal text of nibbles. However many nibbles there are, each has its place: the last eight
    show their digits and those before them, which the number has lost, show zeros. -/

namespace Chip8Disasm

namespace Hex

/-! ### Digits and numbers -/

/-- The number that a row of digits stands for, the most significant first. -/
def number (letters : Letters) (digits : List Char) : Nat :=
  digits.foldl (fun n c => 16 * n + letters.alphabet.idxOf c) 0

theorem Letters.idxOf_digit (letters : Letters) {d : Nat} (h : d < 16) :
    letters.alphabet.idxOf (letters.digit d) = d := by
  have listed : ∀ d < 16, letters.alphabet.idxOf (letters.digit d) = d := by cases letters <;> decide +kernel
  exact listed d h

theorem number_map_digit (letters : Letters) {ds : List Nat} (h : ∀ d ∈ ds, d < 16) :
    number letters (ds.map letters.digit) = Nat.ofDigits 16 ds.reverse := by
  induction ds using List.reverseRecOn with
  | nil => rfl
  | append_singleton ds d ih =>
    have first := ih fun x hx => h x (List.mem_append_left _ hx)
    have last := letters.idxOf_digit (h d (List.mem_append_right _ (List.mem_singleton_self d)))
    unfold number at first ⊢
    simp [Nat.ofDigits_cons, first, last, Nat.add_comm]

/-- A number is what its digits stand for if they are enough. -/
theorem ofDigits_digits {width n : Nat} (h : n < 16 ^ width) : Nat.ofDigits 16 (digits width n).reverse = n := by
  induction width generalizing n with
  | zero =>
    obtain rfl := Nat.lt_one_iff.mp h
    rfl
  | succ width ih =>
    have shorter : n / 16 < 16 ^ width := by
      rw [Nat.pow_succ] at h
      omega
    rw [digits_succ, List.reverse_append, List.reverse_singleton, List.singleton_append, Nat.ofDigits_cons, ih shorter]
    exact Nat.mod_add_div n 16

/-- A number taken modulo a power of sixteen keeps its last digits, and zeros stand for the others. -/
theorem getElem?_digits_mod {width i : Nat} (n k : Nat) (h : i < width) :
    (digits width (n % 16 ^ k))[i]? = if width ≤ i + k then (digits width n)[i]? else some 0 := by
  rw [getElem?_digits _ h, getElem?_digits _ h]
  split
  · rename_i kept
    obtain ⟨j, rfl⟩ : ∃ j, k = (width - 1 - i) + (j + 1) := ⟨k - (width - i), by omega⟩
    rw [Nat.pow_add, Nat.mod_mul_right_div_self, Nat.mod_mod_of_dvd _ (dvd_pow_self 16 (Nat.succ_ne_zero j))]
  · rename_i lost
    have small : n % 16 ^ k < 16 ^ (width - 1 - i) :=
      Nat.lt_of_lt_of_le (Nat.mod_lt _ (Nat.pow_pos (by decide))) (Nat.pow_le_pow_right (by decide) (by omega))
    rw [Nat.div_eq_of_lt small]

end Hex

namespace Nibble

/-! ### Places of nibbles -/

theorem value_lt (nibbles : List UInt8) : (value nibbles).toNat < 16 ^ nibbles.length := by
  rw [toNat_value]
  exact Nat.lt_of_le_of_lt (Nat.mod_le _ _) (ofDigits_lt nibbles)

theorem toList_text_of_ne_nil (letters : Hex.Letters) {nibbles : List UInt8} (filled : nibbles ≠ []) :
    (text letters nibbles).toList = (Hex.digits nibbles.length (value nibbles).toNat).map letters.digit :=
  Hex.toList_numeral (List.length_pos_iff.mpr filled) (value_lt nibbles)

theorem text_nil (letters : Hex.Letters) : text letters [] = "0" := by
  cases letters <;> decide +kernel

theorem getElem?_digits_value {nibbles : List UInt8} {i : Nat} (h : i < nibbles.length) :
    (Hex.digits nibbles.length (value nibbles).toNat)[i]? =
      some (if nibbles.length ≤ i + 8 then nibbles[i].toNat % 16 else 0) := by
  have own : (digits nibbles)[i]? = some (nibbles[i].toNat % 16) := by
    simp [digits, h, low]
  have eight : (2 : Nat) ^ 32 = 16 ^ 8 := by decide
  rw [toNat_value, eight, Hex.getElem?_digits_mod _ _ h, digits_ofDigits, own]
  split <;> rfl

theorem number_text (letters : Hex.Letters) (nibbles : List UInt8) :
    Hex.number letters (text letters nibbles).toList = (value nibbles).toNat := by
  rcases eq_or_ne nibbles [] with rfl | filled
  · rw [text_nil]
    cases letters <;> decide +kernel
  · rw [toList_text_of_ne_nil letters filled, Hex.number_map_digit letters fun d hd => Hex.digits_lt hd,
      Hex.ofDigits_digits (value_lt nibbles)]

theorem length_text (letters : Hex.Letters) (nibbles : List UInt8) :
    (text letters nibbles).toList.length = max nibbles.length 1 := by
  rcases eq_or_ne nibbles [] with rfl | filled
  · rw [text_nil]
    rfl
  · have := List.length_pos_iff.mpr filled
    rw [toList_text_of_ne_nil letters filled, List.length_map, Hex.length_digits]
    omega

theorem mem_alphabet_of_mem_text {letters : Hex.Letters} {nibbles : List UInt8} {c : Char}
    (h : c ∈ (text letters nibbles).toList) : c ∈ letters.alphabet := by
  rw [text, Hex.numeral, String.toList_ofList, List.mem_map] at h
  obtain ⟨d, hd, rfl⟩ := h
  exact List.mem_of_getElem? (letters.getElem?_alphabet (Hex.digits_lt hd))

theorem getElem?_text (letters : Hex.Letters) {nibbles : List UInt8} {i : Nat} (h : i < nibbles.length) :
    (text letters nibbles).toList[i]? =
      if nibbles.length ≤ i + 8 then letters.alphabet[nibbles[i].toNat % 16]? else some '0' := by
  have filled : nibbles ≠ [] := List.ne_nil_of_length_pos (Nat.zero_lt_of_lt h)
  rw [toList_text_of_ne_nil letters filled, List.getElem?_map, getElem?_digits_value h, Option.map_some]
  split
  · rw [letters.getElem?_alphabet (Nat.mod_lt _ (by decide))]
  · cases letters <;> rfl

theorem low_of_lt {x : UInt8} (h : x.toNat < 16) : low x = x := by
  apply UInt8.toNat_inj.mp
  simp only [low, UInt8.toNat_mod, UInt8.reduceToNat]
  omega

theorem text_inj (letters : Hex.Letters) {xs ys : List UInt8} (same : xs.length = ys.length) (filled : 1 ≤ xs.length)
    (few : xs.length ≤ 8) (hx : ∀ x ∈ xs, x.toNat < 16) (hy : ∀ y ∈ ys, y.toNat < 16)
    (h : text letters xs = text letters ys) : xs = ys := by
  have written := congrArg String.toList h
  rw [toList_text letters filled few, toList_text letters (same ▸ filled) (same ▸ few)] at written
  exact eq_of_digits (fun x hm => low_of_lt (hx x hm)) (fun y hm => low_of_lt (hy y hm))
    (Hex.Letters.map_digit_injective (fun d hd => digits_lt hd) (fun d hd => digits_lt hd) written)

/-- A row of nibbles is written with a digit for each, and with a zero if there are none. The last eight digits are those
    of their nibbles, all before them are zeros, and together they are the number of the row. So up to eight nibbles can
    be told from their text. -/
theorem text_place_by_place (letters : Hex.Letters) (nibbles : List UInt8) :
    (markedText letters nibbles).toList = '0' :: 'x' :: (text letters nibbles).toList ∧
    (text letters nibbles).toList.length = max nibbles.length 1 ∧
    (∀ c ∈ (text letters nibbles).toList, c ∈ letters.alphabet) ∧
    (nibbles = [] → (text letters nibbles).toList = ['0']) ∧
    (∀ (i : Nat) (_ : i < nibbles.length), (text letters nibbles).toList[i]? =
      if nibbles.length ≤ i + 8 then letters.alphabet[nibbles[i].toNat % 16]? else some '0') ∧
    Hex.number letters (text letters nibbles).toList = (value nibbles).toNat ∧
    ∀ others : List UInt8, nibbles.length = others.length → 1 ≤ nibbles.length → nibbles.length ≤ 8 →
      (∀ x ∈ nibbles, x.toNat < 16) → (∀ x ∈ others, x.toNat < 16) →
      (text letters nibbles = text letters others → nibbles = others) ∧
      (markedText letters nibbles = markedText letters others → nibbles = others) := by
  refine ⟨String.toList_append, length_text letters nibbles, fun c => mem_alphabet_of_mem_text, ?_,
    fun i h => getElem?_text letters h, number_text letters nibbles, fun others same filled few hx hy => ?_⟩
  · rintro rfl
    rw [text_nil]
    rfl
  · refine ⟨text_inj letters same filled few hx hy, fun h => text_inj letters same filled few hx hy ?_⟩
    exact (String.append_right_inj "0x").mp h

/-- Ten nibbles, the second last of which has a high half that does not count. -/
theorem text_place_by_place_long :
    (text .upper [1, 2, 3, 4, 5, 6, 7, 8, 0xFA, 0xB]).toList[1]? = some '0' ∧
    (text .upper [1, 2, 3, 4, 5, 6, 7, 8, 0xFA, 0xB]).toList[8]? = some 'A' ∧
    (text .lower []).toList = ['0'] ∧
    markedText .lower [0, 0xA] ≠ markedText .lower [0xA, 0] := by
  obtain ⟨-, -, -, -, place, -, -⟩ := text_place_by_place .upper [1, 2, 3, 4, 5, 6, 7, 8, 0xFA, 0xB]
  obtain ⟨-, -, -, none, -⟩ := text_place_by_place .lower []
  obtain ⟨-, -, -, -, -, -, told⟩ := text_place_by_place .lower [0, 0xA]
  refine ⟨place 1 (by decide), (place 8 (by decide)).trans (by decide), none rfl, fun same => ?_⟩
  exact absurd ((told [0xA, 0] rfl (by decide) (by decide) (by simp) (by simp)).2 same) (by decide)

end Nibble

end Chip8Disasm
