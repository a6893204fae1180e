import Chip8Disasm.Proofs.Holding

/-! What a compiled decoder is made of. It has a group for each shape of the table, in the order in which the shapes
    first appear, and each text of the table is stored in one group, under its key, as the last row that has it. -/

namespace Chip8Disasm

/-- A row behind which no row has its text. -/
def Pattern.LastOf (ps : List Pattern) (p : Pattern) : Prop :=
  ∃ before after, ps = before ++ p :: after ∧ ∀ q ∈ after, q.text ≠ p.text

/-! ### Groups -/

namespace Group
variable {ps : List Pattern} {p : Pattern}

theorem holder?_eq_some_iff_lastOf : holder? ps p.text = some p ↔ p.LastOf ps := by
  rw [holder?, getLast?_filter_eq_some_iff]
  simp only [decide_true, true_and, decide_eq_false_iff_not]
  rfl

/-- What a group of the decoder for a table is. -/
structure Represents (ps : List Pattern) (g : Group) : Prop where
  inhabited : g.index ≠ []
  layout : Layout.ofMask? g.shape = .ok g.layout
  keys : (g.index.map Prod.fst).Nodup
  key : ∀ entry ∈ g.index, entry.2.key = entry.1
  shape : ∀ entry ∈ g.index, entry.2.shape = g.shape
  last : ∀ entry ∈ g.index, entry.2.LastOf ps

theorem represents_ofRows {shape : String} (known : shape ∈ ps.map Pattern.shape) :
    (ofRows ps shape).Represents ps where
  inhabited := by
    obtain ⟨p, hp, rfl⟩ := List.mem_map.mp known
    obtain ⟨q, -, held, same⟩ := exists_holder? hp
    have entered : (q.key, q) ∈ (ofRows ps p.shape).index :=
      mem_index_ofRows.mpr ⟨same ▸ held, (Pattern.text_eq_iff.mp same).1, rfl⟩
    exact List.ne_nil_of_mem entered
  layout := by
    obtain ⟨p, -, rfl⟩ := List.mem_map.mp known
    exact p.ofMask?_shape
  keys := nodup_keys_ofRows ps shape
  key _ entered := (mem_index_ofRows.mp entered).2.2
  shape _ entered := (mem_index_ofRows.mp entered).2.1
  last _ entered := holder?_eq_some_iff_lastOf.mp (mem_index_ofRows.mp entered).1

end Group

/-! ### Decoders -/

namespace Decoder
variable {ps : List Pattern}

theorem represents_of_mem_groups {g : Group} (h : g ∈ (ofRows ps).groups) : g.Represents ps := by
  obtain ⟨shape, known, rfl⟩ := List.mem_map.mp h
  exact Group.represents_ofRows (List.mem_eraseDups.mp known)

theorem nodup_map_text_stored (ps : List Pattern) : ((ofRows ps).stored.map Pattern.text).Nodup := by
  refine (nodup_stored_ofRows ps).map_on fun p hp q hq same => ?_
  rw [mem_stored_ofRows] at hp hq
  exact Option.some.inj (hp.symm.trans (same ▸ hq))

theorem mem_map_text_stored {text : String} :
    text ∈ (ofRows ps).stored.map Pattern.text ↔ text ∈ ps.map Pattern.text := by
  simp only [List.mem_map, mem_stored_ofRows]
  constructor
  · rintro ⟨p, held, rfl⟩
    exact ⟨p, (Group.holder?_eq_some held).1, rfl⟩
  · rintro ⟨p, hp, rfl⟩
    obtain ⟨q, -, held, same⟩ := Group.exists_holder? hp
    exact ⟨q, same ▸ held, same⟩

/-- The texts that are stored are those of the table, once each. -/
theorem map_text_stored_perm (ps : List Pattern) :
    ((ofRows ps).stored.map Pattern.text).Perm (ps.map Pattern.text).eraseDups :=
  (List.perm_ext_iff_of_nodup (nodup_map_text_stored ps) (nodup_eraseDups _)).mpr fun _ => by
    rw [mem_map_text_stored, List.mem_eraseDups]

theorem size_ofRows (ps : List Pattern) : (ofRows ps).size = (ps.map Pattern.text).eraseDups.length := by
  rw [← length_stored, ← (map_text_stored_perm ps).length_eq, List.length_map]

theorem isEmpty_ofRows_iff : (ofRows ps).isEmpty = true ↔ ps = [] := by
  rw [isEmpty, decide_eq_true_iff, size_ofRows, List.length_eq_zero_iff]
  constructor
  · intro none
    refine List.eq_nil_iff_forall_not_mem.mpr fun p hp => ?_
    have there := List.mem_eraseDups.mpr (List.mem_map_of_mem (f := Pattern.text) hp)
    rw [none] at there
    cases there
  · rintro rfl
    rfl

/-- However collisions are treated, a table that compiles is stored as a whole: its shapes have a group each, in the
    order in which they first appear, and each of its texts is stored once, as the last row that has it. -/
theorem stored_once_in_order {policy : Policy} {ps : List Pattern} {d : Decoder}
    (compiled : (compile policy ps).value = .ok d) :
    d.shapes.Nodup ∧ (∀ shape, shape ∈ d.shapes ↔ ∃ p ∈ ps, p.shape = shape) ∧
    (d.shapes.Pairwise fun a b => (ps.map Pattern.shape).idxOf a < (ps.map Pattern.shape).idxOf b) ∧
    (∀ g ∈ d.groups, g.Represents ps) ∧
    (∀ p ∈ ps, (d.stored.map Pattern.text).count p.text = 1) ∧
    d.size = (ps.map Pattern.text).eraseDups.length ∧
    (d.isEmpty = true ↔ ps = []) := by
  obtain rfl := eq_ofRows_of_compile compiled
  rw [shapes_ofRows]
  refine ⟨nodup_eraseDups _, fun shape => ?_, pairwise_eraseDups _, fun g => represents_of_mem_groups, fun p hp => ?_,
    size_ofRows ps, isEmpty_ofRows_iff⟩
  · rw [List.mem_eraseDups, List.mem_map]
  · exact List.count_eq_one_of_mem (nodup_map_text_stored ps) (mem_map_text_stored.mpr (List.mem_map_of_mem hp))

/-- Of four rows, three of which have one text, two are stored, both with one shape. -/
theorem stored_once_in_order_repeating :
    ∃ d, (compile .lastWins repeating).value = .ok d ∧ (∀ shape, shape ∈ d.shapes ↔ ∃ p ∈ repeating, p.shape = shape) ∧
      (∀ g ∈ d.groups, g.Represents repeating) ∧ (d.stored.map Pattern.text).count "6XNN" = 1 ∧ d.size = 2 ∧
      d.isEmpty ≠ true := by
  have compiled := value_compile_lastWins repeating
  obtain ⟨-, shapes, -, groups, once, size, empty⟩ := stored_once_in_order compiled
  have written : repeating[0].text = "6XNN" := by decide +kernel
  have known := once repeating[0] (by decide +kernel)
  rw [written] at known
  exact ⟨_, compiled, shapes, groups, known, size.trans (by decide +kernel), fun h => nomatch empty.mp h⟩

end Decoder

end Chip8Disasm
