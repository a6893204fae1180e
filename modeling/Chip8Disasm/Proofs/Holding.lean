import Chip8Disasm.Proofs.Collisions
import Chip8Disasm.Proofs.Scanning

/-! What a compiled decoder holds: for each text of the table the last row with it, once. Tables whose texts stand for
    the same rows therefore have decoders that hold the same, and that answer alike if they try the same shapes. -/

namespace Chip8Disasm

/-! ### Indices -/

namespace Index
universe u v
variable {κ : Type u} {ν : Type v} [DecidableEq κ]

theorem map_fst_put (key : κ) (value : ν) (entries : List (κ × ν)) :
    (put key value entries).map Prod.fst =
      if key ∈ entries.map Prod.fst then entries.map Prod.fst else entries.map Prod.fst ++ [key] := by
  induction entries with
  | nil => rfl
  | cons entry rest ih =>
    unfold put
    by_cases h : entry.1 = key
    · simp [h]
    · have known : key ∈ (entry :: rest).map Prod.fst ↔ key ∈ rest.map Prod.fst := by
        rw [List.map_cons, List.mem_cons, or_iff_right (Ne.symm h)]
      rw [if_neg h, List.map_cons, ih]
      simp only [known]
      split <;> rfl

theorem map_fst_ofList (entries : List (κ × ν)) :
    (ofList entries).map Prod.fst = (entries.map Prod.fst).eraseDups := by
  induction entries using List.reverseRecOn with
  | nil => rfl
  | append_singleton entries entry ih =>
    rw [ofList_concat, map_fst_put, ih, List.map_append, List.map_singleton, eraseDups_concat]
    simp only [List.mem_eraseDups]

/-- Where no key comes twice, what a key has is what is entered with it. -/
theorem get?_eq_some_iff {entries : List (κ × ν)} (nodup : (entries.map Prod.fst).Nodup) {key : κ} {value : ν} :
    get? key entries = some value ↔ (key, value) ∈ entries := by
  induction entries with
  | nil => simp [get?]
  | cons entry rest ih =>
    obtain ⟨k, v⟩ := entry
    obtain ⟨new, nodup⟩ := List.nodup_cons.mp nodup
    rw [get?, List.mem_cons]
    by_cases h : k = key
    · subst h
      rw [if_pos rfl, Option.some_inj]
      constructor
      · rintro rfl
        exact .inl rfl
      · rintro (same | hmem)
        · exact (Prod.mk.inj same).2.symm
        · exact absurd (List.mem_map_of_mem hmem) new
    · rw [if_neg h, ih nodup]
      constructor
      · exact .inr
      · rintro (same | hmem)
        · exact absurd (Prod.mk.inj same).1.symm h
        · exact hmem

end Index

/-! ### Groups -/

namespace Group

theorem get?_ofRows_eq_some_iff {ps : List Pattern} {shape : String} {key : Key} {p : Pattern} :
    Index.get? key (ofRows ps shape).index = some p ↔ holder? ps p.text = some p ∧ p.shape = shape ∧ p.key = key := by
  constructor
  · intro h
    have mem := List.mem_of_getLast? ((get?_ofRows ps shape key).symm.trans h)
    obtain ⟨rfl, rfl⟩ := of_decide_eq_true (List.mem_filter.mp mem).2
    exact ⟨(get?_ofRows_eq_holder? ps p).symm.trans h, rfl, rfl⟩
  · rintro ⟨h, rfl, rfl⟩
    rw [get?_ofRows_eq_holder?, h]

theorem nodup_keys_ofRows (ps : List Pattern) (shape : String) : ((ofRows ps shape).index.map Prod.fst).Nodup := by
  rw [ofRows, Index.map_fst_ofList]
  exact nodup_eraseDups _

theorem mem_index_ofRows {ps : List Pattern} {shape : String} {key : Key} {p : Pattern} :
    (key, p) ∈ (ofRows ps shape).index ↔ holder? ps p.text = some p ∧ p.shape = shape ∧ p.key = key := by
  rw [← Index.get?_eq_some_iff (nodup_keys_ofRows ps shape), get?_ofRows_eq_some_iff]

end Group

/-! ### Decoders -/

namespace Decoder

/-- The rows that words can be decoded with. -/
def stored (d : Decoder) : List Pattern :=
  d.groups.flatMap fun g => g.index.map Prod.snd

theorem length_stored (d : Decoder) : d.stored.length = d.size := by
  obtain ⟨groups⟩ := d
  induction groups with
  | nil => rfl
  | cons g gs ih =>
    simp only [stored, size] at ih
    simp only [stored, size, List.flatMap_cons, List.length_append, List.length_map, ih, List.foldr_cons]

theorem shapes_ofRows (ps : List Pattern) : (ofRows ps).shapes = (ps.map Pattern.shape).eraseDups := by
  simp [shapes, ofRows, Group.allOf, Function.comp_def]

theorem mem_stored_ofRows {ps : List Pattern} {p : Pattern} :
    p ∈ (ofRows ps).stored ↔ Group.holder? ps p.text = some p := by
  simp only [stored, ofRows, Group.allOf, List.mem_flatMap, List.mem_map, Prod.exists, exists_eq_right]
  constructor
  · rintro ⟨_, ⟨shape, -, rfl⟩, key, h⟩
    exact (Group.mem_index_ofRows.mp h).1
  · intro h
    have known : p.shape ∈ (ps.map Pattern.shape).eraseDups :=
      List.mem_eraseDups.mpr (List.mem_map_of_mem (Group.holder?_eq_some h).1)
    exact ⟨_, ⟨p.shape, known, rfl⟩, p.key, Group.mem_index_ofRows.mpr ⟨h, rfl, rfl⟩⟩

/-- No row is stored twice: in a group the keys differ, and the groups differ in their shapes. -/
theorem nodup_stored_ofRows (ps : List Pattern) : (ofRows ps).stored.Nodup := by
  rw [stored, ofRows, Group.allOf, List.flatMap_map, List.nodup_flatMap]
  constructor
  · intro shape _
    refine List.Nodup.map_on ?_ (List.Nodup.of_map _ (Group.nodup_keys_ofRows ps shape))
    rintro ⟨k, p⟩ hp ⟨l, q⟩ hq rfl
    rw [← (Group.mem_index_ofRows.mp hp).2.2, ← (Group.mem_index_ofRows.mp hq).2.2]
  · refine (nodup_eraseDups _).imp ?_
    intro a b hab
    refine List.disjoint_left.mpr ?_
    intro p ha hb
    obtain ⟨⟨k, _⟩, hk, rfl⟩ := List.mem_map.mp ha
    obtain ⟨⟨l, _⟩, hl, same⟩ := List.mem_map.mp hb
    obtain rfl := same
    exact hab ((Group.mem_index_ofRows.mp hk).2.1.symm.trans (Group.mem_index_ofRows.mp hl).2.1)

/-! ### The same holders -/

section
variable {ps qs : List Pattern}

theorem size_congr (holders : ∀ text, Group.holder? ps text = Group.holder? qs text) :
    (ofRows ps).size = (ofRows qs).size := by
  have same : (ofRows ps).stored.Perm (ofRows qs).stored :=
    (List.perm_ext_iff_of_nodup (nodup_stored_ofRows ps) (nodup_stored_ofRows qs)).mpr fun p => by
      rw [mem_stored_ofRows, mem_stored_ofRows, holders]
  rw [← length_stored, ← length_stored, same.length_eq]

/-- Only the shapes and the holders matter to what a word is. -/
theorem decode?_congr (shapes : (ofRows ps).shapes = (ofRows qs).shapes)
    (holders : ∀ text, Group.holder? ps text = Group.holder? qs text) (w : Word) :
    (ofRows ps).decode? w = (ofRows qs).decode? w := by
  have groups : ∀ shape, (Group.ofRows ps shape).decode? w = (Group.ofRows qs shape).decode? w := by
    intro shape
    have found : ∀ key,
        Index.get? key (Group.ofRows ps shape).index = Index.get? key (Group.ofRows qs shape).index := by
      intro key
      ext p
      simp only [Group.get?_ofRows_eq_some_iff, holders]
    simp only [Group.decode?, found]
    rfl
  rw [shapes_ofRows, shapes_ofRows] at shapes
  simp only [decode?, ofRows, Group.allOf, List.findSome?_map, Function.comp_def, groups, shapes]

end

end Decoder

end Chip8Disasm
