import Chip8Disasm.Field
import Mathlib.Data.Nat.Digits.Lemmas
import Mathlib.Data.List.Induction

/-! Hexadecimal texts of nibbles. A row of up to eight nibbles is written with one digit for each of them, so its text
    gives the row back. -/

namespace Chip8Disasm

/-! ### Digits of numbers -/

namespace Hex

theorem getElem?_digits {width i : Nat} (n : Nat) (h : i < width) :
    (digits width n)[i]? = some (n / 16 ^ (width - 1 - i) % 16) := by
  simp [digits, h, Nat.shiftRight_eq_div_pow, Nat.pow_mul]

/-- A number below `16 ^ k` needs at most `k` digits, zero apart. -/
theorem size_le {n k : Nat} (hk : 0 < k) (h : n < 16 ^ k) : size n ≤ k := by
  unfold size
  by_cases hn : n = 0
  · subst hn
    have : Nat.log2 0 = 0 := by decide
    omega
  · have : n < 2 ^ (4 * k) := by rw [Nat.pow_mul]; exact h
    have := (Nat.log2_lt hn).mpr this
    omega

theorem digits_succ (width n : Nat) : digits (width + 1) n = digits width (n / 16) ++ [n % 16] := by
  unfold digits
  rw [List.range_succ, List.map_append, List.map_singleton]
  congr 1
  · refine List.map_congr_left fun i hi => ?_
    have : 4 * (width + 1 - 1 - i) = 4 + 4 * (width - 1 - i) := by
      have := List.mem_range.mp hi
      omega
    rw [this, Nat.shiftRight_add, Nat.shiftRight_eq_div_pow n 4]
  · simp

theorem digits_ofDigits {ds : List Nat} (h : ∀ d ∈ ds, d < 16) :
    digits ds.length (Nat.ofDigits 16 ds.reverse) = ds := by
  induction ds using List.reverseRecOn with
  | nil => rfl
  | append_singleton ds d ih =>
    have hd : d < 16 := h d (List.mem_append_right _ (List.mem_singleton_self d))
    have hds : ∀ x ∈ ds, x < 16 := fun x hx => h x (List.mem_append_left _ hx)
    rw [List.reverse_append, List.reverse_singleton, List.singleton_append, Nat.ofDigits_cons, List.length_append,
      List.length_singleton, digits_succ]
    have hdiv : (d + 16 * Nat.ofDigits 16 ds.reverse) / 16 = Nat.ofDigits 16 ds.reverse := by omega
    have hmod : (d + 16 * Nat.ofDigits 16 ds.reverse) % 16 = d := by omega
    rw [hdiv, hmod, ih hds]

theorem Letters.digit_injective {letters : Letters} {a b : Nat} (ha : a < 16) (hb : b < 16)
    (h : letters.digit a = letters.digit b) : a = b := by
  have distinct : ∀ a < 16, ∀ b < 16, letters.digit a = letters.digit b → a = b := by
    cases letters <;> decide +kernel
  exact distinct a ha b hb h

theorem Letters.map_digit_injective {letters : Letters} {ds es : List Nat} (hd : ∀ d ∈ ds, d < 16)
    (he : ∀ e ∈ es, e < 16) (h : ds.map letters.digit = es.map letters.digit) : ds = es := by
  refine List.ext_getElem (by simpa using congrArg List.length h) fun i hi hi' => ?_
  have same : letters.digit ds[i] = letters.digit es[i] := by simpa [hi, hi'] using congrArg (·[i]?) h
  exact digit_injective (hd _ (List.getElem_mem hi)) (he _ (List.getElem_mem hi')) same

/-- The sixteen digits in ascending order. -/
def Letters.alphabet : Letters → List Char
  | .upper => "0123456789ABCDEF".toList
  | .lower => "0123456789abcdef".toList

theorem Letters.getElem?_alphabet (letters : Letters) {d : Nat} (h : d < 16) :
    letters.alphabet[d]? = some (letters.digit d) := by
  have written : ∀ d < 16, letters.alphabet[d]? = some (letters.digit d) := by cases letters <;> decide +kernel
  exact written d h

theorem toList_numeral {letters : Letters} {width n : Nat} (hw : 0 < width) (h : n < 16 ^ width) :
    (numeral letters width n).toList = (digits width n).map letters.digit := by
  rw [numeral, String.toList_ofList, Nat.max_eq_left (size_le hw h)]

end Hex

/-! ### Values of nibbles -/

/-- Digits stand for their number modulo `2 ^ 32`. -/
theorem toNat_bigEndian (base : UInt32) (ds : List UInt32) :
    (bigEndian base ds).toNat = Nat.ofDigits base.toNat (ds.reverse.map UInt32.toNat) % 2 ^ 32 := by
  induction ds using List.reverseRecOn with
  | nil => rfl
  | append_singleton ds d ih =>
    have step : bigEndian base (ds ++ [d]) = bigEndian base ds * base + d := by simp [bigEndian]
    rw [step, UInt32.toNat_add, UInt32.toNat_mul, ih, List.reverse_append, List.reverse_singleton,
      List.singleton_append, List.map_cons, Nat.ofDigits_cons, Nat.mod_add_mod, Nat.add_comm d.toNat,
      Nat.mul_comm base.toNat, Nat.add_mod, Nat.mod_mul_mod, ← Nat.add_mod]

namespace Nibble

def digits (nibbles : List UInt8) : List Nat :=
  nibbles.map fun x => (low x).toNat

theorem digits_lt {nibbles : List UInt8} {d : Nat} (h : d ∈ digits nibbles) : d < 16 := by
  obtain ⟨x, -, rfl⟩ := List.mem_map.mp h
  exact low_lt x

theorem toNat_value (nibbles : List UInt8) :
    (value nibbles).toNat = Nat.ofDigits 16 (digits nibbles).reverse % 2 ^ 32 := by
  rw [value, toNat_bigEndian, ← List.map_reverse, List.map_map, digits, ← List.map_reverse]
  rfl

/-- Each nibble is a digit of the number that they all stand for. -/
theorem digits_ofDigits (nibbles : List UInt8) :
    Hex.digits nibbles.length (Nat.ofDigits 16 (digits nibbles).reverse) = digits nibbles := by
  have own := @Hex.digits_ofDigits (digits nibbles) fun d hd => digits_lt hd
  rwa [digits, List.length_map, ← digits] at own

theorem ofDigits_lt (nibbles : List UInt8) : Nat.ofDigits 16 (digits nibbles).reverse < 16 ^ nibbles.length := by
  have bound := @Nat.ofDigits_lt_base_pow_length 16 (digits nibbles).reverse (by decide)
    fun d hd => digits_lt (List.mem_reverse.mp hd)
  rwa [List.length_reverse, digits, List.length_map, ← digits] at bound

/-- Up to eight nibbles are written digit by digit. -/
theorem toList_text (letters : Hex.Letters) {nibbles : List UInt8} (some : 0 < nibbles.length)
    (few : nibbles.length ≤ 8) : (text letters nibbles).toList = (digits nibbles).map letters.digit := by
  have widest : 16 ^ nibbles.length ≤ 16 ^ 8 := Nat.pow_le_pow_right (by decide) few
  have small : Nat.ofDigits 16 (digits nibbles).reverse < 2 ^ 32 := Nat.lt_of_lt_of_le (ofDigits_lt nibbles) widest
  rw [text, toNat_value, Nat.mod_eq_of_lt small, Hex.toList_numeral some (ofDigits_lt nibbles), digits_ofDigits]

theorem eq_of_digits {xs ys : List UInt8} (hx : ∀ x ∈ xs, low x = x) (hy : ∀ y ∈ ys, low y = y)
    (h : digits xs = digits ys) : xs = ys := by
  have whole : ∀ {zs : List UInt8}, (∀ z ∈ zs, low z = z) → digits zs = zs.map UInt8.toNat := fun hz =>
    List.map_congr_left fun z hmem => by rw [hz z hmem]
  rw [whole hx, whole hy] at h
  exact (List.map_inj_right fun _ _ => UInt8.toNat_inj.mp).mp h

end Nibble

end Chip8Disasm
