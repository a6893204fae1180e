import Chip8Disasm.Word
import Chip8Disasm.Proofs.Numerals

/-! Numbers packed from digits. Moving a number up and setting a digit into the bits that come free builds the same
    number as multiplying and adding, and loses the same bits above the thirty-second. So bytes and their nibbles pack
    into one number, whichever of the two are taken for digits. -/

namespace Chip8Disasm

/-! ### Bits and digits -/

/-- The number in which each digit takes `k` bits, the first the uppermost. Bits above the thirty-second are lost. -/
def packed (k : UInt32) (digits : List UInt32) : UInt32 :=
  digits.foldl (fun bits digit => bits <<< k ||| digit) 0

/-- A digit of `k` bits fits under a number that has moved up by `k`, whatever the number loses on the way. -/
theorem shiftLeft_or_eq {base k digit : UInt32} (bits : UInt32) (narrow : k.toNat < 32)
    (power : base.toNat = 2 ^ k.toNat) (fits : digit.toNat < base.toNat) :
    bits <<< k ||| digit = bits * base + digit := by
  apply UInt32.toNat_inj.mp
  rw [power] at fits
  -- The two have no bit in common, so their or is a sum, and an or may be cut to 32 bits before or after.
  calc (bits <<< k ||| digit).toNat
      = (2 ^ k.toNat * bits.toNat) % 2 ^ 32 ||| digit.toNat % 2 ^ 32 := by
        rw [UInt32.toNat_or, UInt32.toNat_shiftLeft, Nat.mod_eq_of_lt narrow, Nat.shiftLeft_eq, Nat.mul_comm,
          Nat.mod_eq_of_lt digit.toNat_lt]
    _ = (2 ^ k.toNat * bits.toNat + digit.toNat) % 2 ^ 32 := by
        rw [← Nat.or_mod_two_pow, Nat.two_pow_add_eq_or_of_lt fits]
    _ = (bits * base + digit).toNat := by
        rw [UInt32.toNat_add, UInt32.toNat_mul, power, Nat.mod_add_mod, Nat.mul_comm]

/-- Digits in a base that is a power of two are packed bit by bit. -/
theorem packed_eq_bigEndian (base : UInt32) {k : UInt32} (narrow : k.toNat < 32) (power : base.toNat = 2 ^ k.toNat)
    {digits : List UInt32} (fits : ∀ d ∈ digits, d.toNat < base.toNat) : packed k digits = bigEndian base digits := by
  induction digits using List.reverseRecOn with
  | nil => rfl
  | append_singleton digits digit ih =>
    have before := ih fun d hd => fits d (List.mem_append_left _ hd)
    have here := fits digit (List.mem_append_right _ (List.mem_singleton_self digit))
    unfold packed bigEndian at before ⊢
    rw [List.foldl_concat, List.foldl_concat, before]
    exact shiftLeft_or_eq _ narrow power here

/-- Digits that follow others move these up by their number of places. -/
theorem toNat_bigEndian_append (base : UInt32) (xs ys : List UInt32) :
    (bigEndian base (xs ++ ys)).toNat =
      ((bigEndian base xs).toNat * base.toNat ^ ys.length + (bigEndian base ys).toNat) % 2 ^ 32 := by
  simp only [toNat_bigEndian]
  rw [List.reverse_append, List.map_append, Nat.ofDigits_append, List.length_map, List.length_reverse, Nat.add_comm,
    Nat.mul_comm]
  exact (((Nat.mod_modEq _ _).mul_right _).add (Nat.mod_modEq _ _)).symm

/-! ### Bytes -/

/-- Bytes stand for their number in base 256, modulo `2 ^ 32`. -/
theorem toNat_bytesValue (bytes : List UInt8) :
    (bytesValue bytes).toNat = Nat.ofDigits 256 (bytes.reverse.map UInt8.toNat) % 2 ^ 32 := by
  rw [bytesValue, toNat_bigEndian, ← List.map_reverse, List.map_map]
  rfl

theorem toNat_bytesValue_append (xs ys : List UInt8) :
    (bytesValue (xs ++ ys)).toNat = ((bytesValue xs).toNat * 256 ^ ys.length + (bytesValue ys).toNat) % 2 ^ 32 := by
  rw [bytesValue, List.map_append, toNat_bigEndian_append, List.length_map]
  rfl

theorem toNat_bytesValue_singleton (byte : UInt8) : (bytesValue [byte]).toNat = byte.toNat := by
  simp [bytesValue, bigEndian]

theorem bytesValue_eq_packed (bytes : List UInt8) : bytesValue bytes = packed 8 (bytes.map UInt8.toUInt32) := by
  refine (packed_eq_bigEndian 256 (by decide) (by decide) fun d hd => ?_).symm
  obtain ⟨byte, -, rfl⟩ := List.mem_map.mp hd
  exact byte.toNat_lt

/-! ### Nibbles -/

namespace Nibble

theorem high_eq_shiftRight (byte : UInt8) : high byte = byte >>> 4 := by
  apply UInt8.toNat_inj.mp
  simp [high, Nat.shiftRight_eq_div_pow]

theorem low_eq_and (byte : UInt8) : low byte = byte &&& 0x0F := by
  apply UInt8.toNat_inj.mp
  simp [low, Nat.and_two_pow_sub_one_eq_mod byte.toNat 4]

/-- Nibbles count modulo 16. -/
theorem digits_eq (nibbles : List UInt8) : digits nibbles = nibbles.map fun n => n.toNat % 16 :=
  List.map_congr_left fun n _ => UInt8.toNat_mod n 16

theorem value_eq_packed (nibbles : List UInt8) :
    value nibbles = packed 4 (nibbles.map fun n => n.toUInt32 &&& 0x0F) := by
  have digits : (nibbles.map fun n => (low n).toUInt32) = nibbles.map fun n => n.toUInt32 &&& 0x0F :=
    List.map_congr_left fun n _ => by
      rw [low_eq_and, UInt8.toUInt32_and]
      rfl
  rw [← digits]
  refine (packed_eq_bigEndian 16 (by decide) (by decide) fun d hd => ?_).symm
  obtain ⟨n, -, rfl⟩ := List.mem_map.mp hd
  exact low_lt n

theorem toNat_value_append (xs ys : List UInt8) :
    (value (xs ++ ys)).toNat = ((value xs).toNat * 16 ^ ys.length + (value ys).toNat) % 2 ^ 32 := by
  rw [value, List.map_append, toNat_bigEndian_append, List.length_map]
  rfl

theorem toNat_value_ofByte (byte : UInt8) : (value (ofByte byte)).toNat = byte.toNat := by
  have bound := byte.toNat_lt
  have halves := toNat_eq byte
  have both : (digits (ofByte byte)).reverse = [(low byte).toNat, (high byte).toNat] := by simp [digits, ofByte]
  rw [toNat_value, both, Nat.ofDigits_cons, Nat.ofDigits_singleton, Nat.add_comm, ← halves]
  exact Nat.mod_eq_of_lt (Nat.lt_trans bound (by decide))

/-- The nibbles of bytes stand for the same number as the bytes. -/
theorem value_flatMap_ofByte (bytes : List UInt8) : value (bytes.flatMap ofByte) = bytesValue bytes := by
  induction bytes using List.reverseRecOn with
  | nil => rfl
  | append_singleton bytes byte ih =>
    apply UInt32.toNat_inj.mp
    rw [List.flatMap_append, List.flatMap_singleton, toNat_value_append, ih, toNat_value_ofByte,
      toNat_bytesValue_append, toNat_bytesValue_singleton]
    rfl

end Nibble

/-! ### Words -/

theorem Word.toNat_value_nibbles (w : Word) : (Nibble.value w.nibbles).toNat = w.toUInt16.toNat := by
  have hi := w.hi.toNat_lt
  have lo := w.lo.toNat_lt
  have both : w.bytes.reverse.map UInt8.toNat = [w.lo.toNat, w.hi.toNat] := rfl
  rw [nibbles, Nibble.value_flatMap_ofByte, toNat_bytesValue, both, Nat.ofDigits_cons, Nat.ofDigits_singleton,
    toNat_toUInt16]
  omega

/-! ### Bytes and nibbles -/

/-- Bytes and the nibbles that they are made of are the digits of one number, in base 256 and in base 16, of which the
    last 32 bits are kept. Nibbles count modulo 16, and those that follow others move these up by their number of places.
    The numbers are packed bit by bit, eight for a byte and four for a nibble. The nibbles of a word stand for it. -/
theorem bytes_and_nibbles_alike (bytes nibbles others : List UInt8) (hi lo : UInt8) :
    bytesValue bytes = Nibble.value (bytes.flatMap Nibble.ofByte) ∧
    (bytesValue bytes).toNat = Nat.ofDigits 256 (bytes.reverse.map UInt8.toNat) % 2 ^ 32 ∧
    (Nibble.value nibbles).toNat = Nat.ofDigits 16 (nibbles.reverse.map fun n => n.toNat % 16) % 2 ^ 32 ∧
    (Nibble.value (nibbles ++ others)).toNat =
      ((Nibble.value nibbles).toNat * 16 ^ others.length + (Nibble.value others).toNat) % 2 ^ 32 ∧
    bytesValue bytes = packed 8 (bytes.map UInt8.toUInt32) ∧
    Nibble.value nibbles = packed 4 (nibbles.map fun n => n.toUInt32 &&& 0x0F) ∧
    Nibble.ofByte hi = [hi >>> 4, hi &&& 0x0F] ∧
    ∃ w, Word.ofBytes? [hi, lo] = .ok w ∧ w.toUInt16.toNat = 256 * hi.toNat + lo.toNat ∧
      (Nibble.value w.nibbles).toNat = w.toUInt16.toNat := by
  refine ⟨(Nibble.value_flatMap_ofByte bytes).symm, toNat_bytesValue bytes, ?_,
    Nibble.toNat_value_append nibbles others, bytesValue_eq_packed bytes, Nibble.value_eq_packed nibbles, ?_,
    ⟨hi, lo⟩, rfl, Word.toNat_toUInt16 ⟨hi, lo⟩, Word.toNat_value_nibbles ⟨hi, lo⟩⟩
  · rw [Nibble.toNat_value, Nibble.digits_eq, List.map_reverse]
  · rw [Nibble.ofByte, Nibble.high_eq_shiftRight, Nibble.low_eq_and]

example : bytesValue [0xAB, 1, 2, 3, 4] = 0x01020304 := by decide

end Chip8Disasm
