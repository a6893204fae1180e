import Chip8Disasm.Proofs.Compiling

/-! A decoder answers like a scan of its table. Among the rows that a word fits those count whose shape appears first
    in the table, and of these the last one names the instruction. -/

namespace Chip8Disasm

/-! ### Lists -/

section
universe u v
variable {α : Type u} {β : Type v}

theorem getLast?_filter_eq_some_iff {p : α → Bool} {l : List α} {a : α} :
    (l.filter p).getLast? = some a ↔
      p a = true ∧ ∃ before after, l = before ++ a :: after ∧ ∀ b ∈ after, p b = false := by
  rw [List.getLast?_filter, List.find?_eq_some_iff_append]
  refine and_congr_right fun _ => ⟨?_, ?_⟩
  · rintro ⟨after, before, h, none⟩
    refine ⟨before.reverse, after.reverse, ?_, fun b hb => ?_⟩
    · rw [← List.reverse_reverse l, h]
      simp
    · simpa using none b (List.mem_reverse.mp hb)
  · rintro ⟨before, after, rfl, none⟩
    refine ⟨after.reverse, before.reverse, by simp, fun b hb => ?_⟩
    simpa using none b (List.mem_reverse.mp hb)

/-- Repetitions do not matter to a search. -/
theorem findSome?_eraseDups [DecidableEq α] (f : α → Option β) (l : List α) :
    l.eraseDups.findSome? f = l.findSome? f := by
  induction l using List.reverseRecOn with
  | nil => rfl
  | append_singleton l a ih =>
    rw [eraseDups_concat, List.findSome?_append]
    split
    · rename_i h
      rw [ih]
      cases hl : l.findSome? f with
      | some b => rfl
      | none => simp [List.findSome?_eq_none_iff.mp hl a h]
    · rw [List.findSome?_append, ih]

end

/-! ### The scan -/

/-- The row that names the instruction that a word is: the word fits it, no fitting row has a shape that appears
    earlier in the table, and no fitting row of its shape comes later. -/
structure Decides (ps : List Pattern) (w : Word) (p : Pattern) : Prop where
  fits : p.Matches w
  earliest : ∀ q ∈ ps, q.Matches w → (ps.map Pattern.shape).idxOf p.shape ≤ (ps.map Pattern.shape).idxOf q.shape
  last : ∃ before after, ps = before ++ p :: after ∧ ∀ q ∈ after, q.Matches w → q.shape ≠ p.shape

def lastFitting? (ps : List Pattern) (w : Word) (shape : String) : Option Pattern :=
  (ps.filter fun p => p.shape = shape ∧ p.Matches w).getLast?

theorem lastFitting?_eq_some_iff {ps : List Pattern} {w : Word} {shape : String} {p : Pattern} :
    lastFitting? ps w shape = some p ↔ (p.shape = shape ∧ p.Matches w) ∧
      ∃ before after, ps = before ++ p :: after ∧ ∀ q ∈ after, q.Matches w → q.shape ≠ shape := by
  rw [lastFitting?, getLast?_filter_eq_some_iff, decide_eq_true_eq]
  simp only [decide_eq_false_iff_not, not_and']

theorem lastFitting?_eq_none_iff {ps : List Pattern} {w : Word} {shape : String} :
    lastFitting? ps w shape = none ↔ ∀ p ∈ ps, p.Matches w → p.shape ≠ shape := by
  simp only [lastFitting?, List.getLast?_eq_none_iff, List.filter_eq_nil_iff, decide_eq_true_eq, not_and']

namespace Decides
variable {ps : List Pattern} {w : Word} {p q : Pattern}

theorem mem (h : Decides ps w p) : p ∈ ps := by
  obtain ⟨before, after, rfl, -⟩ := h.last
  exact List.mem_append_right _ List.mem_cons_self

theorem lastFitting?_eq (h : Decides ps w p) : lastFitting? ps w p.shape = some p :=
  lastFitting?_eq_some_iff.mpr ⟨⟨rfl, h.fits⟩, h.last⟩

theorem unique (hp : Decides ps w p) (hq : Decides ps w q) : p = q := by
  have hidx := Nat.le_antisymm (hp.earliest q hq.mem hq.fits) (hq.earliest p hp.mem hp.fits)
  have hshape := (List.idxOf_inj (List.mem_map_of_mem hp.mem)).mp hidx
  have := hp.lastFitting?_eq
  rw [hshape, hq.lastFitting?_eq] at this
  exact (Option.some.inj this).symm

end Decides

/-! ### What a decoder finds -/

def Pattern.decoded (p : Pattern) (w : Word) : Instruction :=
  .decoded w p.mnemonic (Layout.cut p.shape.toList w.nibbles)

theorem Group.decode?_ofRows (ps : List Pattern) (shape : String) (w : Word) :
    (ofRows ps shape).decode? w = (lastFitting? ps w shape).map fun p => p.decoded w := by
  have fits : ∀ p ∈ ps, decide (p.shape = shape ∧ p.key = (Layout.ofRuns shape.toList).key w.nibbles) =
      decide (p.shape = shape ∧ p.Matches w) := by
    intro p _
    refine decide_eq_decide.mpr (and_congr_right ?_)
    rintro rfl
    rw [Pattern.matches_iff_key, eq_comm]
  rw [decode?, get?_ofRows, show (ofRows ps shape).layout = Layout.ofRuns shape.toList from rfl,
    List.filter_congr fits, ← lastFitting?]
  refine Option.map_congr fun p hp => ?_
  obtain ⟨⟨rfl, -⟩, -⟩ := lastFitting?_eq_some_iff.mp hp
  rw [Instruction.ofLayout, Layout.fields_ofRuns (p.length_shape w), Pattern.decoded]

theorem Decoder.decode?_ofRows (ps : List Pattern) (w : Word) :
    (ofRows ps).decode? w =
      (ps.map Pattern.shape).findSome? fun shape => (lastFitting? ps w shape).map fun p => p.decoded w := by
  rw [decode?, ofRows, Group.allOf, List.findSome?_map, Function.comp_def]
  simp only [Group.decode?_ofRows]
  exact findSome?_eraseDups _ _

theorem Decoder.decode?_ofRows_eq_none_iff {ps : List Pattern} {w : Word} :
    (ofRows ps).decode? w = none ↔ ∀ p ∈ ps, ¬p.Matches w := by
  rw [decode?_ofRows, List.findSome?_eq_none_iff]
  simp only [Option.map_eq_none_iff, lastFitting?_eq_none_iff]
  constructor
  · intro h p hp hw
    exact h p.shape (List.mem_map_of_mem hp) p hp hw rfl
  · intro h shape _ p hp hw
    exact absurd hw (h p hp)

/-- The instruction that is found is named by the row that decides. -/
theorem Decoder.exists_decides {ps : List Pattern} {w : Word} {i : Instruction}
    (h : (ofRows ps).decode? w = some i) : ∃ p, Decides ps w p ∧ i = p.decoded w := by
  rw [decode?_ofRows] at h
  obtain ⟨before, shape, after, hsplit, hfound, hnone⟩ := List.findSome?_eq_some_iff.mp h
  obtain ⟨p, hp, rfl⟩ := Option.map_eq_some_iff.mp hfound
  obtain ⟨⟨rfl, hfits⟩, hlast⟩ := lastFitting?_eq_some_iff.mp hp
  -- No fitting row has one of the shapes that were tried before.
  have untried : ∀ q ∈ ps, q.Matches w → q.shape ∉ before := fun q hq hw hmem =>
    lastFitting?_eq_none_iff.mp (Option.map_eq_none_iff.mp (hnone _ hmem)) q hq hw rfl
  have hmem : p ∈ ps := by
    obtain ⟨_, _, rfl, -⟩ := hlast
    exact List.mem_append_right _ List.mem_cons_self
  refine ⟨p, ⟨hfits, fun q hq hw => ?_, hlast⟩, rfl⟩
  rw [hsplit, List.idxOf_append, List.idxOf_append, if_neg (untried p hmem hfits), if_neg (untried q hq hw),
    List.idxOf_cons_self]
  omega

theorem Decoder.decode?_eq_of_decides {ps : List Pattern} {w : Word} {p : Pattern} (h : Decides ps w p) :
    (ofRows ps).decode? w = some (p.decoded w) := by
  cases hd : (ofRows ps).decode? w with
  | none => exact absurd h.fits (decode?_ofRows_eq_none_iff.mp hd p h.mem)
  | some i =>
    obtain ⟨q, hq, rfl⟩ := exists_decides hd
    rw [h.unique hq]

/-- A decoder answers like a scan of its table: a word that fits no row is unknown, and any other word is what the
    row that decides says. -/
theorem decode_eq_scan {policy : Policy} {ps : List Pattern} {d : Decoder}
    (compiled : (Decoder.compile policy ps).value = .ok d) (w : Word) :
    ((∀ p ∈ ps, ¬p.Matches w) → d.decode? w = none ∧ (d.decode w).value = .unknown w ∧
      (Instruction.unknown w).fields = [⟨.opcode, w.nibbles⟩]) ∧
    ((∃ p ∈ ps, p.Matches w) → ∃ p, Decides ps w p) ∧
    ∀ p, Decides ps w p →
      d.decode? w = some (.decoded w p.mnemonic (Layout.cut p.shape.toList w.nibbles)) ∧
      (d.decode w).value = .decoded w p.mnemonic (Layout.cut p.shape.toList w.nibbles) := by
  obtain rfl := Decoder.eq_ofRows_of_compile compiled
  refine ⟨fun none => ?_, ?_, fun p hp => ?_⟩
  · have h := Decoder.decode?_ofRows_eq_none_iff.mpr none
    exact ⟨h, by rw [Decoder.decode, h], rfl⟩
  · rintro ⟨p, hp, hw⟩
    cases h : (Decoder.ofRows ps).decode? w with
    | none => exact absurd hw (Decoder.decode?_ofRows_eq_none_iff.mp h p hp)
    | some i =>
      obtain ⟨q, hq, -⟩ := Decoder.exists_decides h
      exact ⟨q, hq⟩
  · have h := Decoder.decode?_eq_of_decides hp
    exact ⟨h, by rw [Decoder.decode, h]; rfl⟩

/-- A table in which the last row takes a word from the row before it, since its shape appears in the first row. -/
def Pattern.overlapping : List Pattern :=
  let n := Cell.operand .n
  let x := Cell.operand .x
  [row 0x6 x n n "SETR", row 0x0 0x0 0xE 0x0 "CLEAR", row 0x0 x n n "ADDR", row 0x0 x n n "SUBR"]

theorem decode_eq_scan_overlapping :
    ∃ d, (Decoder.compile .lastWins Pattern.overlapping).value = .ok d ∧
      d.decode? ⟨0x00, 0xE0⟩ =
        some (.decoded ⟨0x00, 0xE0⟩ "SUBR" [⟨.opcode, [0x0]⟩, ⟨.register, [0x0]⟩, ⟨.constant, [0xE, 0x0]⟩]) := by
  have compiled : (Decoder.compile .lastWins Pattern.overlapping).value = .ok (Decoder.ofRows Pattern.overlapping) := by
    decide +kernel
  have decides : Decides Pattern.overlapping ⟨0x00, 0xE0⟩ (.row 0x0 (.operand .x) (.operand .n) (.operand .n) "SUBR") :=
    ⟨by decide +kernel, by decide +kernel, ⟨Pattern.overlapping.take 3, [], rfl, fun _ h => nomatch h⟩⟩
  refine ⟨_, compiled, ?_⟩
  rw [((decode_eq_scan compiled ⟨0x00, 0xE0⟩).2.2 _ decides).1]
  decide +kernel

end Chip8Disasm
