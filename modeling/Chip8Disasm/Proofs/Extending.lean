import Chip8Disasm.Proofs.Reaching

/-! Tables that are extended by a row. The new row changes only what its own words are, and of these it takes all but
    those that are decoded through a shape before its own. -/

namespace Chip8Disasm

/-! ### Rows that decide -/

namespace Decides
variable {ps : List Pattern} {w : Word} {p q : Pattern}

theorem idxOf_shape_concat (hq : q ∈ ps) (p : Pattern) :
    ((ps ++ [p]).map Pattern.shape).idxOf q.shape = (ps.map Pattern.shape).idxOf q.shape := by
  rw [List.map_append, List.idxOf_append_of_mem (List.mem_map_of_mem hq)]

/-- The row that decides still does after a further row that the word does not fit, or whose shape is tried later. -/
theorem concat (decides : Decides ps w q) (later : p.Matches w →
    ((ps ++ [p]).map Pattern.shape).idxOf q.shape < ((ps ++ [p]).map Pattern.shape).idxOf p.shape) :
    Decides (ps ++ [p]) w q := by
  refine ⟨decides.fits, List.forall_mem_append.mpr ⟨fun r hr fits => ?_, List.forall_mem_singleton.mpr fun fits => ?_⟩, ?_⟩
  · rw [idxOf_shape_concat decides.mem, idxOf_shape_concat hr]
    exact decides.earliest r hr fits
  · exact Nat.le_of_lt (later fits)
  · obtain ⟨before, after, rfl, last⟩ := decides.last
    refine ⟨before, after ++ [p], by simp, List.forall_mem_append.mpr ⟨last, List.forall_mem_singleton.mpr ?_⟩⟩
    intro fits same
    have behind := later fits
    rw [same] at behind
    exact Nat.lt_irrefl _ behind

/-- A further row decides what its words are, unless a row decides whose shape is tried before. -/
theorem concat_self (fits : p.Matches w) (unclaimed : ∀ q, Decides ps w q →
    ((ps ++ [p]).map Pattern.shape).idxOf p.shape ≤ ((ps ++ [p]).map Pattern.shape).idxOf q.shape) :
    Decides (ps ++ [p]) w p := by
  refine ⟨fits, List.forall_mem_append.mpr ⟨fun r hr other => ?_, List.forall_mem_singleton.mpr fun _ => Nat.le_refl _⟩,
    ⟨ps, [], rfl, fun _ h => nomatch h⟩⟩
  obtain ⟨q, decides⟩ := exists_of_matches hr other
  have first := decides.earliest r hr other
  rw [← idxOf_shape_concat decides.mem p, ← idxOf_shape_concat hr p] at first
  exact Nat.le_trans (unclaimed q decides) first

end Decides

/-! ### Shapes that words are decoded through -/

namespace Decoder
variable {ps : List Pattern} {w : Word} {p q : Pattern}

/-- The shape that a word is decoded through: that of the first group that knows the word. -/
def through? (d : Decoder) (w : Word) : Option String :=
  (d.groups.find? fun g => (g.decode? w).isSome).map Group.shape

theorem isSome_through? (d : Decoder) (w : Word) : (d.through? w).isSome = (d.decode? w).isSome := by
  rw [through?, Option.isSome_map, decode?, List.isSome_findSome?, List.isSome_find?]

theorem through?_ofRows (ps : List Pattern) (w : Word) :
    (ofRows ps).through? w = (ps.map Pattern.shape).eraseDups.find? fun shape => (lastFitting? ps w shape).isSome := by
  simp only [through?, ofRows, Group.allOf, List.find?_map, Function.comp_def, Group.decode?_ofRows, Option.isSome_map,
    Option.map_map, Group.shape_ofRows, Option.map_id']

/-- A word is decoded through the shape of the row that decides. -/
theorem through?_of_decides (decides : Decides ps w q) : (ofRows ps).through? w = some q.shape := by
  obtain ⟨before, after, split⟩ :=
    List.append_of_mem (List.mem_eraseDups.mpr (List.mem_map_of_mem (f := Pattern.shape) decides.mem))
  rw [through?_ofRows, List.find?_eq_some_iff_append, decides.lastFitting?_eq]
  refine ⟨rfl, before, after, split, fun shape tried => ?_⟩
  -- A row that the word fits and whose shape is tried before would come before the row that decides.
  cases found : lastFitting? ps w shape with
  | none => rfl
  | some r =>
    obtain ⟨⟨rfl, fits⟩, front, back, rows, -⟩ := lastFitting?_eq_some_iff.mp found
    have hr : r ∈ ps := rows ▸ List.mem_append_right _ List.mem_cons_self
    have order := pairwise_eraseDups (ps.map Pattern.shape)
    rw [split] at order
    have earlier := (List.pairwise_append.mp order).2.2 _ tried _ List.mem_cons_self
    exact absurd earlier (Nat.not_lt_of_le (decides.earliest r hr fits))

theorem through?_eq_some_iff {shape : String} :
    (ofRows ps).through? w = some shape ↔ ∃ q, Decides ps w q ∧ q.shape = shape := by
  constructor
  · intro h
    have known := isSome_through? (ofRows ps) w
    rw [h, Option.isSome_some] at known
    obtain ⟨i, hi⟩ := Option.isSome_iff_exists.mp known.symm
    obtain ⟨q, decides, -⟩ := exists_decides hi
    exact ⟨q, decides, Option.some.inj ((through?_of_decides decides).symm.trans h)⟩
  · rintro ⟨q, decides, rfl⟩
    exact through?_of_decides decides

/-! ### The decoder of the longer table -/

theorem shapes_concat (ps : List Pattern) (p : Pattern) : (ofRows (ps ++ [p])).shapes =
    if p.shape ∈ (ofRows ps).shapes then (ofRows ps).shapes else (ofRows ps).shapes ++ [p.shape] := by
  simp only [shapes_ofRows, List.map_append, List.map_singleton, eraseDups_concat, List.mem_eraseDups]

theorem decode?_concat_of_decides (decides : Decides ps w q) (later : p.Matches w →
    ((ps ++ [p]).map Pattern.shape).idxOf q.shape < ((ps ++ [p]).map Pattern.shape).idxOf p.shape) :
    (ofRows (ps ++ [p])).decode? w = (ofRows ps).decode? w := by
  rw [decode?_eq_of_decides decides, decode?_eq_of_decides (decides.concat later)]

theorem decode?_concat_of_not_matches (apart : ¬p.Matches w) :
    (ofRows (ps ++ [p])).decode? w = (ofRows ps).decode? w := by
  cases h : (ofRows ps).decode? w with
  | some i =>
    obtain ⟨q, decides, -⟩ := exists_decides h
    rw [decode?_concat_of_decides decides fun fits => absurd fits apart, h]
  | none =>
    have unfit := decode?_ofRows_eq_none_iff.mp h
    exact decode?_ofRows_eq_none_iff.mpr (List.forall_mem_append.mpr ⟨unfit, List.forall_mem_singleton.mpr apart⟩)

theorem isUnknown_decode_of_ne_none (known : (ofRows ps).decode? w ≠ none) :
    ((ofRows ps).decode w).value.isUnknown = false := by
  obtain ⟨i, h⟩ := Option.ne_none_iff_exists'.mp known
  obtain ⟨q, -, rfl⟩ := exists_decides h
  rw [decode, h]
  rfl

/-- A word is decoded through a shape before that of the new row exactly if the shape of the row that decides is one. -/
theorem through?_earlier_iff :
    (∃ shape, (ofRows ps).through? w = some shape ∧
      (ofRows (ps ++ [p])).shapes.idxOf shape < (ofRows (ps ++ [p])).shapes.idxOf p.shape) ↔
    ∃ q, Decides ps w q ∧
      ((ps ++ [p]).map Pattern.shape).idxOf q.shape < ((ps ++ [p]).map Pattern.shape).idxOf p.shape := by
  have hp : p ∈ ps ++ [p] := List.mem_concat_self
  constructor
  · rintro ⟨shape, through, earlier⟩
    obtain ⟨q, decides, rfl⟩ := through?_eq_some_iff.mp through
    exact ⟨q, decides, (idxOf_shapes_lt_iff hp (List.mem_append_left _ decides.mem)).mp earlier⟩
  · rintro ⟨q, decides, earlier⟩
    exact ⟨q.shape, through?_of_decides decides,
      (idxOf_shapes_lt_iff hp (List.mem_append_left _ decides.mem)).mpr earlier⟩

/-- A row at the end of a table adds its shape at the end, if the table has not got it. Of the words that fit the row,
    those that were decoded through a shape before stay what they were, and all others are what the row says. Nothing
    else changes, so no word becomes unknown. -/
theorem extended_by_row (ps : List Pattern) (p : Pattern) :
    ∃ d e, (compile .lastWins ps).value = .ok d ∧ (compile .lastWins (ps ++ [p])).value = .ok e ∧
      e.shapes = (if p.shape ∈ d.shapes then d.shapes else d.shapes ++ [p.shape]) ∧
      (∀ w, ¬p.Matches w → e.decode? w = d.decode? w) ∧
      (∀ w, p.Matches w →
        ((∃ shape, d.through? w = some shape ∧ e.shapes.idxOf shape < e.shapes.idxOf p.shape) →
          e.decode? w = d.decode? w) ∧
        ((¬∃ shape, d.through? w = some shape ∧ e.shapes.idxOf shape < e.shapes.idxOf p.shape) →
          e.decode? w = some (.decoded w p.mnemonic (Layout.cut p.shape.toList w.nibbles)))) ∧
      ∀ w, d.decode? w ≠ none → e.decode? w ≠ none ∧ (e.decode w).value.isUnknown = false := by
  refine ⟨_, _, value_compile_lastWins ps, value_compile_lastWins (ps ++ [p]), shapes_concat ps p,
    fun w => decode?_concat_of_not_matches, fun w fits => ?_, fun w known => ?_⟩
  · rw [through?_earlier_iff]
    constructor
    · rintro ⟨q, decides, earlier⟩
      exact decode?_concat_of_decides decides fun _ => earlier
    · intro unclaimed
      exact decode?_eq_of_decides
        (.concat_self fits fun q decides => Nat.le_of_not_lt fun earlier => unclaimed ⟨q, decides, earlier⟩)
  · have still : (ofRows (ps ++ [p])).decode? w ≠ none := by
      intro h
      have unfit := decode?_ofRows_eq_none_iff.mp h
      exact known (decode?_ofRows_eq_none_iff.mpr (List.forall_mem_append.mp unfit).1)
    exact ⟨still, isUnknown_decode_of_ne_none still⟩

/-- The row that is put last takes the word 0x00E0 from the row before it, whose shape is tried later. -/
theorem extended_by_row_overlapping :
    ∃ d e, (compile .lastWins (Pattern.overlapping.take 2)).value = .ok d ∧
      (compile .lastWins (Pattern.overlapping.take 2 ++ [Pattern.overlapping[2]])).value = .ok e ∧
      d.decode? ⟨0x00, 0xE0⟩ = some (.decoded ⟨0x00, 0xE0⟩ "CLEAR" [⟨.opcode, [0x0, 0x0, 0xE, 0x0]⟩]) ∧
      e.decode? ⟨0x00, 0xE0⟩ =
        some (.decoded ⟨0x00, 0xE0⟩ "ADDR" [⟨.opcode, [0x0]⟩, ⟨.register, [0x0]⟩, ⟨.constant, [0xE, 0x0]⟩]) := by
  obtain ⟨d, e, hd, he, -, -, taken, -⟩ := extended_by_row (Pattern.overlapping.take 2) Pattern.overlapping[2]
  obtain rfl := eq_ofRows_of_compile hd
  obtain rfl := eq_ofRows_of_compile he
  refine ⟨_, _, hd, he, by decide +kernel, ?_⟩
  rw [(taken ⟨0x00, 0xE0⟩ (by decide +kernel)).2]
  · decide +kernel
  · rintro ⟨shape, -, earlier⟩
    have first : (ofRows (Pattern.overlapping.take 2 ++ [Pattern.overlapping[2]])).shapes.idxOf
        Pattern.overlapping[2].shape = 0 := by decide +kernel
    omega

end Decoder

end Chip8Disasm
