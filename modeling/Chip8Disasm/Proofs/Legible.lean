import Chip8Disasm.Proofs.Listings
import Chip8Disasm.Proofs.Numerals
import Chip8Disasm.Proofs.Scanning

/-! Listings that lose nothing. The mnemonic is the part of a line before the first space, so in a table that keeps
    its mnemonics apart it names the row, the row gives the fixed digits, and the operands give the others. -/

namespace Chip8Disasm

/-! ### Fields -/

/-- A field whose text shows each of its nibbles. -/
structure Field.Faithful (f : Field) : Prop where
  pos : 0 < f.nibbles.length
  few : f.nibbles.length ≤ 8
  single : f.kind = .register → f.nibbles.length = 1
  low : ∀ x ∈ f.nibbles, Nibble.low x = x

namespace Field

def lead : FieldKind → List Char
  | .register => ['V']
  | _ => ['0', 'x']

/-- A register shows its first nibble, whatever others it has. -/
theorem toList_text_register {x : UInt8} (xs : List UInt8) (low : Nibble.low x = x) :
    (text ⟨.register, x :: xs⟩).toList = ['V', Hex.Letters.upper.digit x.toNat] := by
  have small : x.toNat < 16 ^ 1 := low ▸ Nibble.low_lt x
  have one : Hex.digits 1 x.toNat = [x.toNat] := by simpa [Hex.digits] using small
  show ("V" ++ Hex.numeral .upper 1 x.toNat).toList = _
  rw [String.toList_append, Hex.toList_numeral Nat.one_pos small, one]
  rfl

theorem toList_text {f : Field} (faithful : f.Faithful) :
    f.text.toList = lead f.kind ++ (Nibble.digits f.nibbles).map Hex.Letters.upper.digit := by
  obtain ⟨kind, nibbles⟩ := f
  have marked : (Nibble.markedText .upper nibbles).toList =
      ['0', 'x'] ++ (Nibble.digits nibbles).map Hex.Letters.upper.digit := by
    rw [Nibble.markedText, String.toList_append, Nibble.toList_text .upper faithful.pos faithful.few]
    rfl
  cases kind with
  | opcode => exact marked
  | constant => exact marked
  | register =>
    obtain ⟨x, rfl⟩ := List.length_eq_one_iff.mp (faithful.single rfl)
    have hx := faithful.low x List.mem_cons_self
    rw [toList_text_register [] hx, Nibble.digits, List.map_singleton, hx]
    rfl

/-- Fields of one kind and one size can be told apart by their texts, whatever follows. -/
theorem eq_of_text_append {f g : Field} (hf : f.Faithful) (hg : g.Faithful) (kind : f.kind = g.kind)
    (size : f.nibbles.length = g.nibbles.length) {u v : List Char} (h : f.text.toList ++ u = g.text.toList ++ v) :
    f = g ∧ u = v := by
  rw [toList_text hf, toList_text hg, kind, List.append_assoc, List.append_assoc] at h
  obtain ⟨hdigits, hrest⟩ := List.append_inj (List.append_cancel_left h) (by simp [Nibble.digits, size])
  have hsame : Nibble.digits f.nibbles = Nibble.digits g.nibbles :=
    Hex.Letters.map_digit_injective (fun _ => Nibble.digits_lt) (fun _ => Nibble.digits_lt) hdigits
  obtain ⟨_, _⟩ := f
  obtain ⟨_, _⟩ := g
  exact ⟨by rw [Field.mk.injEq]; exact ⟨kind, Nibble.eq_of_digits hf.low hg.low hsame⟩, hrest⟩

def spaced (fs : List Field) : List Char :=
  fs.flatMap fun f => ' ' :: f.text.toList

end Field

/-! ### Layouts -/

theorem FieldKind.eq_of_register {c : Char} (h : ofMaskChar c = .register) : c = 'X' ∨ c = 'Y' := by
  unfold ofMaskChar at h
  split at h
  · cases h
  · exact Or.inl rfl
  · exact Or.inr rfl
  · cases h

/-- A slot whose fields are faithful once they are filled. -/
structure Slot.Faithful (s : Slot) : Prop where
  pos : 0 < s.width
  few : s.width ≤ 8
  single : s.kind = .register → s.width = 1

theorem Slot.Faithful.fill {s : Slot} (faithful : s.Faithful) {xs : List UInt8} (enough : s.width ≤ xs.length)
    (low : ∀ x ∈ xs, Nibble.low x = x) : (s.fill xs).Faithful := by
  have size : (s.fill xs).nibbles.length = s.width := by rw [Slot.fill, List.length_take, Nat.min_eq_left enough]
  refine ⟨?_, ?_, fun register => ?_, fun x hx => low x (List.mem_of_mem_take hx)⟩
  · rw [size]
    exact faithful.pos
  · rw [size]
    exact faithful.few
  · rw [size]
    exact faithful.single register

/-- What a slot takes is known from what it gives to the key and from what it shows, whatever fields follow. -/
theorem Slot.Faithful.eq_of_spaced {s : Slot} (faithful : s.Faithful) {xs ys : List UInt8} {fs gs : List Field}
    (wx : s.width ≤ xs.length) (wy : s.width ≤ ys.length) (hx : ∀ x ∈ xs, Nibble.low x = x)
    (hy : ∀ y ∈ ys, Nibble.low y = y)
    (htaken : (xs.take s.width).map (if s.kind.isOperand then fun _ => none else some) =
      (ys.take s.width).map (if s.kind.isOperand then fun _ => none else some))
    (hshown : Field.spaced ((s.fill xs :: fs).filter Field.isOperand) =
      Field.spaced ((s.fill ys :: gs).filter Field.isOperand)) :
    xs.take s.width = ys.take s.width ∧
      Field.spaced (fs.filter Field.isOperand) = Field.spaced (gs.filter Field.isOperand) := by
  cases hk : s.kind.isOperand with
  | false =>
    have hidden : ∀ zs, (s.fill zs).isOperand = false := fun _ => hk
    rw [List.filter_cons_of_neg (by simp [hidden]), List.filter_cons_of_neg (by simp [hidden])] at hshown
    rw [hk, if_neg Bool.false_ne_true] at htaken
    exact ⟨(List.map_inj_right fun _ _ => Option.some.inj).mp htaken, hshown⟩
  | true =>
    have visible : ∀ zs, (s.fill zs).isOperand = true := fun _ => hk
    rw [List.filter_cons_of_pos (visible xs), List.filter_cons_of_pos (visible ys)] at hshown
    have size : (s.fill xs).nibbles.length = (s.fill ys).nibbles.length := by simp [Slot.fill, wx, wy]
    obtain ⟨hfill, hrest⟩ :=
      Field.eq_of_text_append (faithful.fill wx hx) (faithful.fill wy hy) rfl size (List.cons.inj hshown).2
    exact ⟨congrArg Field.nibbles hfill, hrest⟩

namespace Layout

/-- Nibbles are known from what the opcode slots take of them and from the texts of what the others take. -/
theorem eq_of_key_of_spaced {layout : Layout} {xs ys : List UInt8} (faithful : ∀ s ∈ layout, s.Faithful)
    (hx : ∀ x ∈ xs, Nibble.low x = x) (hy : ∀ y ∈ ys, Nibble.low y = y)
    (lx : (layout.map Slot.width).sum = xs.length) (ly : (layout.map Slot.width).sum = ys.length)
    (hkey : layout.key xs = layout.key ys)
    (hshown : Field.spaced ((layout.fields xs).filter Field.isOperand) =
      Field.spaced ((layout.fields ys).filter Field.isOperand)) : xs = ys := by
  induction layout generalizing xs ys with
  | nil =>
    rw [List.length_eq_zero_iff.mp lx.symm, List.length_eq_zero_iff.mp ly.symm]
  | cons s slots ih =>
    rw [List.map_cons, List.sum_cons] at lx ly
    have wx : s.width ≤ xs.length := by omega
    have wy : s.width ≤ ys.length := by omega
    have first := faithful s List.mem_cons_self
    obtain ⟨htaken, hkey'⟩ := List.append_inj hkey (by simp [wx, wy])
    obtain ⟨hhead, htail⟩ := first.eq_of_spaced wx wy hx hy htaken hshown
    have rest := ih (fun t ht => faithful t (List.mem_cons_of_mem _ ht)) (fun x hm => hx x (List.mem_of_mem_drop hm))
      (fun y hm => hy y (List.mem_of_mem_drop hm)) (by rw [List.length_drop]; omega)
      (by rw [List.length_drop]; omega) hkey' htail
    rw [← List.take_append_drop s.width xs, ← List.take_append_drop s.width ys, hhead, rest]

theorem sum_width_ofRuns (mask : List Char) : ((ofRuns mask).map Slot.width).sum = mask.length := by
  have whole := congrArg List.length (RunLength.expand_runs mask)
  rw [RunLength.expand, List.length_flatMap] at whole
  rw [← whole, ofRuns, List.map_map]
  simp [Function.comp_def]

theorem faithful_ofRuns {mask : List Char} (few : mask.length ≤ 8) (hx : ¬['X', 'X'] <:+: mask)
    (hy : ¬['Y', 'Y'] <:+: mask) : ∀ s ∈ ofRuns mask, s.Faithful := by
  intro s hs
  obtain ⟨⟨c, n⟩, hrun, rfl⟩ := List.mem_map.mp hs
  have part := RunLength.replicate_infix_of_mem_runs hrun
  have pos : 0 < n := RunLength.pos_of_mem_runs hrun
  have size := part.length_le
  rw [List.length_replicate] at size
  refine ⟨pos, Nat.le_trans size few, fun register => ?_⟩
  by_contra several
  have enough : 2 + (n - 2) = n := by
    have : n ≠ 1 := several
    omega
  have twice : List.replicate 2 c <+: List.replicate n c :=
    ⟨List.replicate (n - 2) c, by rw [List.replicate_append_replicate, enough]⟩
  have inside : List.replicate 2 c <:+: mask := twice.isInfix.trans part
  rcases FieldKind.eq_of_register register with rfl | rfl
  · exact hx inside
  · exact hy inside

end Layout

/-! ### Lines -/

/-- A text without a space is known from a line that it starts, if nothing or a space follows it there. -/
theorem append_inj_of_space {s t u v : List Char} (hs : ' ' ∉ s) (ht : ' ' ∉ t) (hu : ∀ c ∈ u.head?, c = ' ')
    (hv : ∀ c ∈ v.head?, c = ' ') (h : s ++ u = t ++ v) : s = t ∧ u = v := by
  have upTo : ∀ {s u : List Char}, ' ' ∉ s → (∀ c ∈ u.head?, c = ' ') → (s ++ u).takeWhile (· ≠ ' ') = s := by
    intro s u hs hu
    have here : ∀ c ∈ s, decide (c ≠ ' ') = true := by
      intro c hc
      refine decide_eq_true ?_
      rintro rfl
      exact hs hc
    rw [List.takeWhile_append_of_pos here]
    match u with
    | [] => simp
    | c :: u => simp [hu c rfl]
  have same : s = t := by rw [← upTo hs hu, h, upTo ht hv]
  subst same
  exact ⟨rfl, List.append_cancel_left h⟩

theorem Field.eq_space_of_head?_spaced {fs : List Field} : ∀ c ∈ (spaced fs).head?, c = ' ' := by
  intro c hc
  match fs with
  | [] => cases hc
  | f :: fs =>
    cases hc
    rfl

namespace Instruction

theorem toList_text_decoded (w : Word) (mnemonic : String) (fs : List Field) :
    (decoded w mnemonic fs).text.toList = mnemonic.toList ++ Field.spaced (fs.filter Field.isOperand) := by
  unfold text
  dsimp only [Instruction.mnemonic, operands, fields]
  rw [String.toList_join, List.flatMap_cons, List.flatMap_map]
  simp [Field.spaced]

theorem toList_text_unknown (w : Word) :
    (unknown w).text.toList = "UNKNOWN".toList ++ Field.spaced [⟨.opcode, w.nibbles⟩] := by
  unfold text
  dsimp only [Instruction.mnemonic, fields]
  rw [String.toList_join, List.flatMap_cons, List.flatMap_map]
  simp [Field.spaced]

end Instruction

theorem Word.low_nibbles (w : Word) : ∀ x ∈ w.nibbles, Nibble.low x = x := by
  intro x hx
  obtain ⟨byte, -, hx⟩ := List.mem_flatMap.mp hx
  rcases List.mem_pair.mp hx with rfl | rfl
  · exact Nibble.low_high byte
  · exact Nibble.low_low byte

/-! ### Tables -/

namespace Pattern

/-- What a shape keeps of a pattern stands in the pattern as it is written. -/
theorem infix_text_of_infix_shape {p : Pattern} {cs : List Char} (letters : Cell.filler ∉ cs)
    (h : cs <:+: p.shape.toList) : cs <:+: p.text.toList := by
  obtain ⟨before, after, h⟩ := h
  rw [toList_shape] at h
  obtain ⟨front, back, hcells, hfront, -⟩ := List.map_eq_append_iff.mp h.symm
  obtain ⟨start, middle, rfl, -, hmiddle⟩ := List.map_eq_append_iff.mp hfront
  have same : middle.map Cell.char = cs := by
    rw [← hmiddle]
    refine List.map_congr_left fun cell hcell => ?_
    cases cell with
    | operand letter => rfl
    | digit d =>
      have : Cell.filler ∈ middle.map Cell.maskChar := List.mem_map.mpr ⟨_, hcell, rfl⟩
      rw [hmiddle] at this
      exact absurd this letters
  rw [toList_text, hcells, List.map_append, List.map_append, same]
  exact ⟨start.map Cell.char, back.map Cell.char, rfl⟩

/-- A table whose listings can be read back: no mnemonic stands in two rows, or for unknown words, or has a space, and
    no register is written with two nibbles. -/
structure Legible (ps : List Pattern) : Prop where
  distinct : (ps.map Pattern.mnemonic).Nodup
  known : ∀ p ∈ ps, p.mnemonic ≠ "UNKNOWN"
  unspaced : ∀ p ∈ ps, ' ' ∉ p.mnemonic.toList
  single : ∀ p ∈ ps, ¬['X', 'X'] <:+: p.text.toList ∧ ¬['Y', 'Y'] <:+: p.text.toList

theorem legible_shipped : Legible shipped :=
  ⟨by decide +kernel, by decide +kernel, by decide +kernel, by decide +kernel⟩

namespace Legible
variable {ps : List Pattern} {p q : Pattern} {v w : Word}

theorem faithful (legible : Legible ps) (hp : p ∈ ps) : ∀ s ∈ Layout.ofRuns p.shape.toList, s.Faithful := by
  obtain ⟨hx, hy⟩ := legible.single p hp
  refine Layout.faithful_ofRuns ?_ ?_ ?_
  · rw [toList_shape, List.length_map, p.length_cells]
    decide
  · exact fun h => hx (infix_text_of_infix_shape (by decide) h)
  · exact fun h => hy (infix_text_of_infix_shape (by decide) h)

theorem eq_of_row (legible : Legible ps) (hp : p ∈ ps) (hv : p.Matches v) (hw : p.Matches w)
    (h : Field.spaced ((Layout.cut p.shape.toList v.nibbles).filter Field.isOperand) =
      Field.spaced ((Layout.cut p.shape.toList w.nibbles).filter Field.isOperand)) : v = w := by
  have width : ∀ u : Word, ((Layout.ofRuns p.shape.toList).map Slot.width).sum = u.nibbles.length := fun u => by
    rw [Layout.sum_width_ofRuns, p.length_shape u]
  rw [← Layout.fields_ofRuns (p.length_shape v), ← Layout.fields_ofRuns (p.length_shape w)] at h
  have keys := (matches_iff_key.mp hv).trans (matches_iff_key.mp hw).symm
  exact Word.nibbles_injective
    (Layout.eq_of_key_of_spaced (legible.faithful hp) v.low_nibbles w.low_nibbles (width v) (width w) keys h)

theorem text_ne_unknown (legible : Legible ps) (hp : p ∈ ps) : (p.decoded v).text ≠ (Instruction.unknown w).text := by
  intro h
  rw [← String.toList_inj, decoded, Instruction.toList_text_decoded, Instruction.toList_text_unknown] at h
  obtain ⟨same, -⟩ := append_inj_of_space (legible.unspaced p hp) (by decide) Field.eq_space_of_head?_spaced
    Field.eq_space_of_head?_spaced h
  exact legible.known p hp (String.toList_inj.mp same)

theorem eq_of_decoded (legible : Legible ps) (hp : p ∈ ps) (hq : q ∈ ps) (hv : p.Matches v) (hw : q.Matches w)
    (h : (p.decoded v).text = (q.decoded w).text) : v = w := by
  rw [← String.toList_inj, decoded, decoded, Instruction.toList_text_decoded, Instruction.toList_text_decoded] at h
  obtain ⟨same, operands⟩ := append_inj_of_space (legible.unspaced p hp) (legible.unspaced q hq)
    Field.eq_space_of_head?_spaced Field.eq_space_of_head?_spaced h
  obtain rfl := List.inj_on_of_nodup_map legible.distinct hp hq (String.toList_inj.mp same)
  exact legible.eq_of_row hp hv hw operands

end Legible

end Pattern

theorem Word.eq_of_text_unknown {v w : Word} (h : (Instruction.unknown v).text = (Instruction.unknown w).text) :
    v = w := by
  have whole : ∀ u : Word, Field.Faithful ⟨.opcode, u.nibbles⟩ := fun u =>
    ⟨by simp, by simp, (fun h => nomatch h), u.low_nibbles⟩
  rw [← String.toList_inj, Instruction.toList_text_unknown, Instruction.toList_text_unknown] at h
  obtain ⟨same, -⟩ := Field.eq_of_text_append (whole v) (whole w) rfl rfl
    (List.cons.inj (List.append_cancel_left h)).2
  exact Word.nibbles_injective (congrArg Field.nibbles same)

/-- What a word decodes to: what the row says that decides, or an unknown word. -/
theorem Decoder.value_decode_ofRows (ps : List Pattern) (w : Word) :
    (∃ p ∈ ps, p.Matches w ∧ ((ofRows ps).decode w).value = p.decoded w) ∨
      ((ofRows ps).decode w).value = .unknown w := by
  rw [decode]
  cases h : (ofRows ps).decode? w with
  | none => exact Or.inr rfl
  | some i =>
    obtain ⟨p, hp, rfl⟩ := exists_decides h
    exact Or.inl ⟨p, hp.mem, hp.fits, rfl⟩

theorem Pattern.Legible.text_injective {policy : Policy} {ps : List Pattern} {d : Decoder} (legible : Legible ps)
    (compiled : (Decoder.compile policy ps).value = .ok d) :
    Function.Injective fun w => (d.decode w).value.text := by
  obtain rfl := Decoder.eq_ofRows_of_compile compiled
  intro v w h
  dsimp only at h
  rcases Decoder.value_decode_ofRows ps v with ⟨p, hp, hv, hpv⟩ | hv <;>
    rcases Decoder.value_decode_ofRows ps w with ⟨q, hq, hw, hqw⟩ | hw
  · rw [hpv, hqw] at h
    exact legible.eq_of_decoded hp hq hv hw h
  · rw [hpv, hw] at h
    exact absurd h (legible.text_ne_unknown hp)
  · rw [hv, hqw] at h
    exact absurd h.symm (legible.text_ne_unknown hq)
  · rw [hv, hw] at h
    exact Word.eq_of_text_unknown h

/-! ### Programs -/

namespace Listing

theorem even_of_value_disassemble {bytes : List UInt8} {lines : List String}
    (h : (disassemble bytes).value = .ok lines) : bytes.length % 2 = 0 := by
  by_contra odd
  obtain ⟨last, hl⟩ := @Reader.exists_getLast?_of_odd bytes (by omega)
  rw [value_disassemble_of_odd (by omega) hl] at h
  cases h

/-- A listing loses nothing: in a legible table no two words have one line, the shipped table is legible, and so no two
    programs have one listing. -/
theorem listing_lossless :
    (∀ (policy : Policy) (ps : List Pattern) (d : Decoder), Pattern.Legible ps →
      (Decoder.compile policy ps).value = .ok d →
      ∀ v w : Word, (d.decode v).value.text = (d.decode w).value.text → v = w) ∧
    Pattern.Legible Pattern.shipped ∧
    ∀ (a b : List UInt8) (lines : List String),
      (disassemble a).value = .ok lines → (disassemble b).value = .ok lines → a = b := by
  refine ⟨fun _ _ _ legible compiled _ _ h => legible.text_injective compiled h, Pattern.legible_shipped, ?_⟩
  intro a b lines ha hb
  have evenA := even_of_value_disassemble ha
  have evenB := even_of_value_disassemble hb
  rw [value_disassemble_of_even evenA] at ha
  rw [value_disassemble_of_even evenB] at hb
  have same := Except.ok.inj (ha.trans hb.symm)
  have lines_injective := Pattern.legible_shipped.text_injective Decoder.compile_shipped
  have read := List.map_injective_iff.mpr lines_injective same
  rw [← Word.flatMap_bytes_ofStream evenA, read, Word.flatMap_bytes_ofStream evenB]

theorem listing_lossless_add :
    (Decoder.shipped.decode ⟨0x8A, 0xB4⟩).value.text = "ADD VA VB" ∧ (⟨0x8A, 0xB4⟩ : Word) = .ofUInt16 0x8AB4 ∧
    (disassemble [0x8A, 0xB4]).value = .ok ["ADD VA VB"] ∧ [0x8A, 0xB4] = Word.bytes (.ofUInt16 0x8AB4) := by
  obtain ⟨words, legible, programs⟩ := listing_lossless
  have line : (Decoder.shipped.decode ⟨0x8A, 0xB4⟩).value.text = "ADD VA VB" := by decide +kernel
  have again : (Decoder.shipped.decode (.ofUInt16 0x8AB4)).value.text = "ADD VA VB" := by decide +kernel
  have listed : (disassemble [0x8A, 0xB4]).value = .ok ["ADD VA VB"] := by
    rw [value_disassemble_of_even rfl]
    exact congrArg (fun text => Except.ok [text]) line
  have listedAgain : (disassemble (Word.bytes (.ofUInt16 0x8AB4))).value = .ok ["ADD VA VB"] := by
    rw [value_disassemble_of_even rfl]
    exact congrArg (fun text => Except.ok [text]) again
  exact ⟨line, words .reject _ _ legible Decoder.compile_shipped _ _ (line.trans again.symm), listed,
    programs _ _ _ listed listedAgain⟩

end Listing

end Chip8Disasm
