import Chip8Disasm.Proofs.Legible
import Chip8Disasm.Proofs.Slicing
import Chip8Disasm.Proofs.Stretches

/-! Masks and what they make of words. The fields of a word lie under the maximal stretches of equal characters of the
    mask, and its line shows of each stretch what the character announces. -/

namespace Chip8Disasm

/-! ### Nibbles that are shown -/

/-- The upper-case hex digit of a nibble. -/
def Nibble.digit (x : UInt8) : Char :=
  "0123456789ABCDEF".toList.getD x.toNat ' '

theorem Nibble.digit_eq {x : UInt8} (h : low x = x) : digit x = Hex.Letters.upper.digit x.toNat := by
  have written : "0123456789ABCDEF".toList[x.toNat]? = some (Hex.Letters.upper.digit x.toNat) :=
    Hex.Letters.upper.getElem?_alphabet (h ▸ low_lt x)
  rw [digit, List.getD_eq_getElem?_getD, written]
  rfl

/-- What a line shows of the nibbles under a character of a mask: a constant digit by digit, a register by its first
    nibble, and of all else nothing. -/
def Layout.shown (c : Char) (taken : List UInt8) : List Char :=
  match c with
  | 'N' => ' ' :: '0' :: 'x' :: taken.map Nibble.digit
  | 'X' | 'Y' => ' ' :: 'V' :: (taken.take 1).map Nibble.digit
  | _ => []

namespace Field

theorem spaced_filter (p : Field → Bool) (fs : List Field) :
    spaced (fs.filter p) = fs.flatMap fun f => if p f then ' ' :: f.text.toList else [] := by
  induction fs with
  | nil => rfl
  | cons f fs ih =>
    rw [List.flatMap_cons, ← ih, List.filter_cons]
    split <;> rfl

theorem toList_text_constant {xs : List UInt8} (some : 0 < xs.length) (few : xs.length ≤ 8)
    (low : ∀ x ∈ xs, Nibble.low x = x) : (text ⟨.constant, xs⟩).toList = '0' :: 'x' :: xs.map Nibble.digit := by
  have faithful : Field.Faithful ⟨.constant, xs⟩ := ⟨some, few, nofun, low⟩
  rw [toList_text faithful, Nibble.digits, List.map_map]
  refine congrArg (['0', 'x'] ++ ·) (List.map_congr_left fun x hx => ?_)
  rw [Nibble.digit_eq (low x hx), Function.comp_apply, low x hx]

/-- A field is shown as the character over it announces. -/
theorem shown_eq {c : Char} {taken : List UInt8} (some : 0 < taken.length) (few : taken.length ≤ 8)
    (low : ∀ x ∈ taken, Nibble.low x = x) :
    (if Field.isOperand ⟨.ofMaskChar c, taken⟩ then ' ' :: (text ⟨.ofMaskChar c, taken⟩).toList else []) =
      Layout.shown c taken := by
  obtain ⟨x, xs, rfl⟩ := List.exists_cons_of_length_pos some
  have register : (text ⟨.register, x :: xs⟩).toList = ['V', Nibble.digit x] := by
    have first := low x List.mem_cons_self
    rw [toList_text_register xs first, Nibble.digit_eq first]
  by_cases n : c = 'N'
  · subst n
    exact congrArg (' ' :: ·) (toList_text_constant some few low)
  by_cases letter : c = 'X' ∨ c = 'Y'
  · rcases letter with rfl | rfl <;> exact congrArg (' ' :: ·) register
  · obtain ⟨notX, notY⟩ := not_or.mp letter
    have opcode : FieldKind.ofMaskChar c = .opcode := by simp [FieldKind.ofMaskChar]
    have hidden : Layout.shown c (x :: xs) = [] := by simp [Layout.shown]
    rw [opcode, hidden]
    rfl

end Field

/-! ### Masks -/

namespace Layout

/-- The field under a stretch of a mask. -/
def under (nibbles : List UInt8) (s : Stretch Char) : Field :=
  ⟨.ofMaskChar s.element, nibbles.extract s.start s.stop⟩

/-- Slots made of runs cut nibbles where the stretches of the runs begin and end. -/
theorem fields_of_runs (rs : List (Char × Nat)) (start : Nat) (nibbles : List UInt8) :
    fields (rs.map fun run => ⟨.ofMaskChar run.1, run.2⟩) (nibbles.drop start) =
      (RunLength.stretches start rs).map (under nibbles) := by
  induction rs generalizing start with
  | nil => rfl
  | cons r rs ih =>
    rw [List.map_cons, fields, List.drop_drop, ih, RunLength.stretches, List.map_cons, Slot.fill, under,
      List.extract_eq_take_drop, Nat.add_sub_cancel_left]

theorem spaced_under {mask : List Char} {nibbles : List UInt8} (same : mask.length = nibbles.length)
    (few : nibbles.length ≤ 8) (low : ∀ x ∈ nibbles, Nibble.low x = x) {runs : List (Stretch Char)}
    (maximal : ∀ s ∈ runs, s.Maximal mask) :
    Field.spaced ((runs.map (under nibbles)).filter Field.isOperand) =
      runs.flatMap fun s => shown s.element (nibbles.extract s.start s.stop) := by
  rw [Field.spaced_filter, List.flatMap_map]
  refine List.flatMap_congr fun s hs => Field.shown_eq ?_ ?_ fun x hx => ?_
  · have filled := (maximal s hs).filled
    have stop := (maximal s hs).stop_le
    simp
    omega
  · simp
    omega
  · exact low x (List.mem_of_mem_drop (List.mem_of_mem_take hx))

end Layout

/-- A mask of four characters, and no other, is a layout. It cuts a word under the maximal stretches of the mask from
    left to right, and the line of the instruction is the mnemonic and what it shows of each stretch. -/
theorem fields_and_text_of_mask (mask : String) :
    (∀ e, Layout.ofMask? mask = .error e ↔ mask.toList.length ≠ 4 ∧ e = .badMask mask) ∧
    (mask.toList.length = 4 → ∃ layout, Layout.ofMask? mask = .ok layout ∧
      ∃ runs : List (Stretch Char),
        runs.Pairwise (fun s t => s.stop ≤ t.start) ∧ (∀ s, s ∈ runs ↔ s.Maximal mask.toList) ∧
        ∀ (w : Word) (mnemonic : String),
          Instruction.ofLayout layout mnemonic w = .decoded w mnemonic
            (runs.map fun s => ⟨.ofMaskChar s.element, w.nibbles.extract s.start s.stop⟩) ∧
          (runs.flatMap fun s => w.nibbles.extract s.start s.stop) = w.nibbles ∧
          (Instruction.ofLayout layout mnemonic w).text.toList =
            mnemonic.toList ++ runs.flatMap fun s => Layout.shown s.element (w.nibbles.extract s.start s.stop)) := by
  refine ⟨fun e => Layout.ofMask?_eq_error_iff, fun four => ⟨_, Layout.ofMask?_of_four four,
    RunLength.stretches 0 (RunLength.runs mask.toList), RunLength.pairwise_stretches 0 _,
    fun s => RunLength.mem_stretches_runs_iff, fun w mnemonic => ?_⟩⟩
  have cut : (Layout.ofRuns mask.toList).fields w.nibbles =
      (RunLength.stretches 0 (RunLength.runs mask.toList)).map (Layout.under w.nibbles) :=
    Layout.fields_of_runs _ 0 w.nibbles
  refine ⟨congrArg (Instruction.decoded w mnemonic) cut, ?_, ?_⟩
  · have whole := (Layout.ofRuns mask.toList).flatMap_nibbles_fields w.nibbles
    rw [cut, List.flatMap_map, Layout.sum_width_ofRuns, four] at whole
    exact whole
  · rw [Instruction.ofLayout, Instruction.toList_text_decoded, cut,
      Layout.spaced_under four (Nat.le_of_ble_eq_true rfl) w.low_nibbles fun s => RunLength.mem_stretches_runs_iff.mp]

/-- A digit and a filler are two stretches, although no operand letter stands there, and two equal letters are one. -/
theorem fields_and_text_of_mask_adjacent :
    ∃ layout, Layout.ofMask? "0_XX" = .ok layout ∧
      ⟨.opcode, [0x8]⟩ ∈ (Instruction.ofLayout layout "ADD" ⟨0x8A, 0xB4⟩).fields ∧
      ⟨.register, [0xB, 0x4]⟩ ∈ (Instruction.ofLayout layout "ADD" ⟨0x8A, 0xB4⟩).fields ∧
      (Instruction.ofLayout layout "ADD" ⟨0x8A, 0xB4⟩).text = "ADD VB" := by
  obtain ⟨layout, accepted, runs, -, longest, words⟩ := (fields_and_text_of_mask "0_XX").2 rfl
  have zero : (⟨'0', 0, 1⟩ : Stretch Char) ∈ runs :=
    (longest _).mpr ⟨by decide, by decide, nofun, by decide⟩
  have letters : (⟨'X', 2, 4⟩ : Stretch Char) ∈ runs :=
    (longest _).mpr ⟨by decide, by decide, fun k hk => by cases hk; decide, by decide⟩
  refine ⟨layout, accepted, ?_, ?_, ?_⟩
  · rw [(words _ _).1]
    exact List.mem_map_of_mem zero
  · rw [(words _ _).1]
    exact List.mem_map_of_mem letters
  · obtain rfl := Except.ok.inj accepted
    decide +kernel

end Chip8Disasm
