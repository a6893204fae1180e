import Chip8Disasm.Proofs.Holding

/-! Tables that differ in their rows and are decoded alike. Where no text comes twice, the order of the rows matters
    only as far as it orders the shapes, and rows that later ones shadow may as well be left out. -/

namespace Chip8Disasm

/-- Repetitions do not matter to the distinct results of a partial map. -/
theorem eraseDups_filterMap_eraseDups {α β : Type} [DecidableEq α] [DecidableEq β] (f : α → Option β) (l : List α) :
    (l.eraseDups.filterMap f).eraseDups = (l.filterMap f).eraseDups := by
  induction l using List.reverseRecOn with
  | nil => rfl
  | append_singleton l a ih =>
    have known : ∀ b, b ∈ l.eraseDups.filterMap f ↔ b ∈ l.filterMap f := by simp
    rw [eraseDups_concat, List.filterMap_append]
    cases ha : f a with
    | none =>
      rw [List.filterMap_cons_none ha, List.filterMap_nil, List.append_nil, ← ih]
      split
      · rfl
      · rw [List.filterMap_append, List.filterMap_cons_none ha, List.filterMap_nil, List.append_nil]
    | some b =>
      rw [List.filterMap_cons_some ha, List.filterMap_nil, eraseDups_concat, ← ih]
      split
      · rename_i h
        rw [if_pos (List.mem_filterMap.mpr ⟨a, h, ha⟩)]
      · rw [List.filterMap_append, List.filterMap_cons_some ha, List.filterMap_nil, eraseDups_concat]
        simp only [known]

/-! ### Orders of rows -/

namespace Pattern

/-- Rows of one shape that one word fits are written alike. -/
theorem text_eq_of_matches {p q : Pattern} {w : Word} (hp : p.Matches w) (hq : q.Matches w) (h : p.shape = q.shape) :
    p.text = q.text := by
  rw [matches_iff_key] at hp hq
  exact text_eq_iff.mpr ⟨h, by rw [← hp, ← hq, h]⟩

end Pattern

/-- A row that no other fitting row stands beside decides. -/
theorem Decides.of_only {ps : List Pattern} {w : Word} {p : Pattern} (hp : p ∈ ps) (fits : p.Matches w)
    (only : ∀ q ∈ ps, q.Matches w → q = p) : Decides ps w p := by
  refine ⟨fits, fun q hq hw => by rw [only q hq hw], ?_⟩
  cases h : lastFitting? ps w p.shape with
  | none => exact absurd rfl (lastFitting?_eq_none_iff.mp h p hp fits)
  | some q =>
    obtain ⟨⟨-, hw⟩, before, after, split, last⟩ := lastFitting?_eq_some_iff.mp h
    obtain rfl := only q (split ▸ List.mem_append_right _ List.mem_cons_self) hw
    exact ⟨before, after, split, last⟩

namespace Decoder
variable {ps qs : List Pattern}

section
variable (distinct : (ps.map Pattern.text).Nodup) (perm : ps.Perm qs)
include distinct perm

theorem holder?_perm (text : String) : Group.holder? ps text = Group.holder? qs text := by
  have distinct' : (qs.map Pattern.text).Nodup := (perm.map _).nodup_iff.mp distinct
  ext p
  rw [Group.holder?_eq_some_iff distinct, Group.holder?_eq_some_iff distinct', perm.mem_iff]

/-- Where the fitting rows are of one shape there is at most one, and it decides in any order. -/
theorem decode?_perm_of_one_shape {w : Word}
    (one : ∀ p ∈ ps, ∀ q ∈ ps, p.Matches w → q.Matches w → p.shape = q.shape) :
    (ofRows ps).decode? w = (ofRows qs).decode? w := by
  by_cases fits : ∃ p ∈ ps, p.Matches w
  · obtain ⟨p, hp, hw⟩ := fits
    have only : ∀ q ∈ ps, q.Matches w → q = p := fun q hq hqw =>
      List.inj_on_of_nodup_map distinct hq hp (Pattern.text_eq_of_matches hqw hw (one q hq p hp hqw hw))
    have here := Decides.of_only hp hw only
    have there := Decides.of_only (perm.mem_iff.mp hp) hw fun q hq => only q (perm.mem_iff.mpr hq)
    rw [decode?_eq_of_decides here, decode?_eq_of_decides there]
  · have here : ∀ p ∈ ps, ¬p.Matches w := fun p hp hw => fits ⟨p, hp, hw⟩
    have there : ∀ p ∈ qs, ¬p.Matches w := fun p hp => here p (perm.mem_iff.mpr hp)
    rw [decode?_ofRows_eq_none_iff.mpr here, decode?_ofRows_eq_none_iff.mpr there]

end

theorem shapes_perm (perm : ps.Perm qs) : (ofRows ps).shapes.Perm (ofRows qs).shapes := by
  rw [shapes_ofRows, shapes_ofRows]
  refine (List.perm_ext_iff_of_nodup (nodup_eraseDups _) (nodup_eraseDups _)).mpr fun shape => ?_
  rw [List.mem_eraseDups, List.mem_eraseDups]
  exact (perm.map _).mem_iff

/-- The order of rows with different texts matters only as far as it orders the shapes: if it does not change the order
    of the shapes no word is decoded differently, and a word whose fitting rows are of one shape never is. -/
theorem compile_perm (policy : Policy) (distinct : (ps.map Pattern.text).Nodup) (perm : ps.Perm qs) :
    ∃ d e, (compile policy ps).value = .ok d ∧ (compile policy qs).value = .ok e ∧
      d.size = e.size ∧ d.shapes.Perm e.shapes ∧
      (d.shapes = e.shapes → ∀ w, d.decode? w = e.decode? w) ∧
      ∀ w, (∀ p ∈ ps, ∀ q ∈ ps, p.Matches w → q.Matches w → p.shape = q.shape) → d.decode? w = e.decode? w := by
  have distinct' : (qs.map Pattern.text).Nodup := (perm.map _).nodup_iff.mp distinct
  have holders := holder?_perm distinct perm
  refine ⟨ofRows ps, ofRows qs, ?_, ?_, size_congr holders, shapes_perm perm,
    fun shapes => decode?_congr shapes holders, fun w one => decode?_perm_of_one_shape distinct perm one⟩
  · rw [compile_of_distinct policy distinct]
  · rw [compile_of_distinct policy distinct']

/-- Two rows of different shapes that share the word 0x00E0. -/
def layered : List Pattern :=
  let n := Cell.operand .n
  [.row 0x0 0x0 0xE 0x0 "CLEAR", .row 0x0 n n n "INVOKE"]

/-- Turning the two rows round changes what their shared word is, but not what a word is that only one of them fits. -/
theorem compile_perm_layered :
    ∃ d e, (compile .reject layered).value = .ok d ∧ (compile .reject layered.reverse).value = .ok e ∧
      d.size = e.size ∧ d.decode? ⟨0x09, 0x99⟩ = e.decode? ⟨0x09, 0x99⟩ ∧
      d.decode? ⟨0x00, 0xE0⟩ ≠ e.decode? ⟨0x00, 0xE0⟩ := by
  have distinct : (layered.map Pattern.text).Nodup := by decide +kernel
  obtain ⟨d, e, hd, he, size, -, -, one⟩ := compile_perm .reject distinct (List.reverse_perm layered).symm
  refine ⟨d, e, hd, he, size, one _ (by decide +kernel), ?_⟩
  rw [eq_ofRows_of_compile hd, eq_ofRows_of_compile he]
  decide +kernel

/-! ### Shadowed rows -/

/-- Decoders that nothing tells apart. -/
structure Alike (d e : Decoder) : Prop where
  shapes : d.shapes = e.shapes
  size : d.size = e.size
  decode? : ∀ w, d.decode? w = e.decode? w
  decode : ∀ w, d.decode w = e.decode w

theorem Alike.of_holders (shapes : (ofRows ps).shapes = (ofRows qs).shapes)
    (holders : ∀ text, Group.holder? ps text = Group.holder? qs text) : Alike (ofRows ps) (ofRows qs) where
  shapes := shapes
  size := size_congr holders
  decode? := decode?_congr shapes holders
  decode w := by simp only [Decoder.decode, decode?_congr shapes holders w]

end Decoder

namespace Pattern

/-- One row for each text: it stands where the text comes first, and it is the row where the text comes last. -/
def resolved (ps : List Pattern) : List Pattern :=
  (ps.map text).eraseDups.filterMap (Group.holder? ps)

variable {ps : List Pattern}

theorem map_text_resolved (ps : List Pattern) : (resolved ps).map text = (ps.map text).eraseDups := by
  have held : ∀ t ∈ (ps.map text).eraseDups, (Group.holder? ps t).map text = some t := by
    intro t ht
    obtain ⟨p, hp, rfl⟩ := List.mem_map.mp (List.mem_eraseDups.mp ht)
    obtain ⟨q, -, held, same⟩ := Group.exists_holder? hp
    rw [held, Option.map_some, same]
  rw [resolved, List.map_filterMap, List.filterMap_congr held, List.filterMap_some]

theorem distinct_resolved (ps : List Pattern) : ((resolved ps).map text).Nodup := by
  rw [map_text_resolved]
  exact nodup_eraseDups _

theorem mem_resolved {p : Pattern} : p ∈ resolved ps ↔ Group.holder? ps p.text = some p := by
  rw [resolved, List.mem_filterMap]
  constructor
  · rintro ⟨t, -, h⟩
    rwa [(Group.holder?_eq_some h).2]
  · intro h
    exact ⟨p.text, List.mem_eraseDups.mpr (List.mem_map_of_mem (Group.holder?_eq_some h).1), h⟩

theorem holder?_resolved (ps : List Pattern) (t : String) : Group.holder? (resolved ps) t = Group.holder? ps t := by
  ext p
  rw [Group.holder?_eq_some_iff (distinct_resolved ps), mem_resolved]
  constructor
  · rintro ⟨h, rfl⟩
    exact h
  · intro h
    obtain rfl := (Group.holder?_eq_some h).2
    exact ⟨h, rfl⟩

/-- A shadowing row does not move its shape. -/
theorem shapes_resolved (ps : List Pattern) : ((resolved ps).map shape).eraseDups = (ps.map shape).eraseDups := by
  have same : ∀ p ∈ ps, (Group.holder? ps p.text).map shape = some p.shape := by
    intro p hp
    obtain ⟨q, -, held, h⟩ := Group.exists_holder? hp
    rw [held, Option.map_some, (text_eq_iff.mp h).1]
  rw [resolved, List.map_filterMap, eraseDups_filterMap_eraseDups, List.filterMap_map, Function.comp_def,
    List.filterMap_congr same, List.filterMap_eq_map']

end Pattern

namespace Decoder

/-- With shadowing, a table is compiled as a strict one in which each row that is shadowed gives its place to the row
    that shadows it. So a strict table that compiles is compiled alike with shadowing. -/
theorem lastWins_alike_reject_resolved (ps : List Pattern) :
    (∃ d e, (compile .lastWins ps).value = .ok d ∧ (compile .reject (Pattern.resolved ps)).value = .ok e ∧ Alike d e) ∧
    ∀ d, (compile .reject ps).value = .ok d → ∃ e, (compile .lastWins ps).value = .ok e ∧ Alike d e := by
  constructor
  · have shapes : (ofRows ps).shapes = (ofRows (Pattern.resolved ps)).shapes := by
      rw [shapes_ofRows, shapes_ofRows, Pattern.shapes_resolved]
    refine ⟨ofRows ps, ofRows (Pattern.resolved ps), value_compile_lastWins ps, ?_,
      .of_holders shapes fun t => (Pattern.holder?_resolved ps t).symm⟩
    rw [compile_of_distinct .reject (Pattern.distinct_resolved ps)]
  · intro d h
    obtain rfl := eq_ofRows_of_compile h
    exact ⟨_, value_compile_lastWins ps, .of_holders rfl fun _ => rfl⟩

/-- Of the three rows with one text the last is left, in the place of the first. -/
theorem lastWins_alike_reject_resolved_repeating :
    ∃ d e, (compile .lastWins repeating).value = .ok d ∧
      (compile .reject [.row 0x6 (.operand .x) (.operand .n) (.operand .n) "MOVE",
        .row 0x7 (.operand .x) (.operand .n) (.operand .n) "ADDI"]).value = .ok e ∧ Alike d e := by
  have resolved : Pattern.resolved repeating = [.row 0x6 (.operand .x) (.operand .n) (.operand .n) "MOVE",
      .row 0x7 (.operand .x) (.operand .n) (.operand .n) "ADDI"] := by decide +kernel
  rw [← resolved]
  exact (lastWins_alike_reject_resolved repeating).1

end Decoder

end Chip8Disasm
