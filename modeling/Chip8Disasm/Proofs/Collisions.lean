import Chip8Disasm.Proofs.Compiling
import Mathlib.Data.Nat.Find

/-! Tables that are refused. Rows collide exactly if they have one text, so a strict table compiles exactly if no text
    comes twice, and otherwise the first row whose text was there already is refused. -/

namespace Chip8Disasm

/-! ### Holders -/

namespace Group
variable {ps : List Pattern} {p q : Pattern} {text : String}

theorem holder?_eq_none_iff : holder? ps text = none ↔ text ∉ ps.map Pattern.text := by
  simp [holder?]

theorem holder?_eq_some (h : holder? ps text = some p) : p ∈ ps ∧ p.text = text := by
  have := List.mem_filter.mp (List.mem_of_getLast? h)
  exact ⟨this.1, of_decide_eq_true this.2⟩

theorem exists_holder? (hp : p ∈ ps) : ∃ q ∈ ps, holder? ps p.text = some q ∧ q.text = p.text := by
  cases h : holder? ps p.text with
  | none => exact absurd (List.mem_map_of_mem hp) (holder?_eq_none_iff.mp h)
  | some q => exact ⟨q, (holder?_eq_some h).1, rfl, (holder?_eq_some h).2⟩

/-- Where no text comes twice, every row holds its text. -/
theorem holder?_of_distinct (distinct : (ps.map Pattern.text).Nodup) (hp : p ∈ ps) : holder? ps p.text = some p := by
  obtain ⟨q, hq, held, same⟩ := exists_holder? hp
  rw [held, List.inj_on_of_nodup_map distinct hq hp same]

theorem holder?_eq_some_iff (distinct : (ps.map Pattern.text).Nodup) :
    holder? ps text = some p ↔ p ∈ ps ∧ p.text = text := by
  constructor
  · exact holder?_eq_some
  · rintro ⟨hp, rfl⟩
    exact holder?_of_distinct distinct hp

/-! ### Verdicts -/

theorem verdict_of_new (policy : Policy) (h : p.text ∉ ps.map Pattern.text) : verdict policy ps p = ⟨.ok (), []⟩ := by
  unfold verdict
  rw [holder?_eq_none_iff.mpr h]

theorem verdict_of_held (h : holder? ps q.text = some p) :
    verdict .reject ps q = ⟨.error (.collision q.text p.mnemonic q.mnemonic), []⟩ := by
  unfold verdict
  rw [h]

theorem verdicts_append (policy : Policy) (before ps qs : List Pattern) :
    verdicts policy before (ps ++ qs) =
      (verdicts policy before ps).andThen fun _ => verdicts policy (before ++ ps) qs := by
  induction ps generalizing before with
  | nil => rw [List.append_nil]; rfl
  | cons p ps ih =>
    rw [List.cons_append, verdicts, verdicts, Traced.andThen_assoc]
    congr 1
    funext _
    rw [ih, List.append_assoc, List.singleton_append]

theorem verdicts_of_distinct {before : List Pattern} (policy : Policy)
    (distinct : ((before ++ ps).map Pattern.text).Nodup) : verdicts policy before ps = ⟨.ok (), []⟩ := by
  induction ps generalizing before with
  | nil => rfl
  | cons p ps ih =>
    have new : p.text ∉ before.map Pattern.text := by
      rw [List.map_append, List.map_cons] at distinct
      intro h
      exact List.disjoint_of_nodup_append distinct h List.mem_cons_self
    have rest : verdicts policy (before ++ [p]) ps = ⟨.ok (), []⟩ := ih (by rwa [List.append_assoc])
    rw [verdicts, verdict_of_new policy new, rest]
    rfl

/-- A strict table is refused at the first row whose text was there already. -/
theorem verdicts_of_repeat {before : List Pattern} (distinct : (before.map Pattern.text).Nodup) (hp : p ∈ before)
    (same : p.text = q.text) (after : List Pattern) :
    verdicts .reject [] (before ++ q :: after) = ⟨.error (.collision q.text p.mnemonic q.mnemonic), []⟩ := by
  have held : holder? before q.text = some p := same ▸ holder?_of_distinct distinct hp
  have fine : verdicts .reject [] before = ⟨.ok (), []⟩ := verdicts_of_distinct .reject distinct
  rw [verdicts_append, fine, List.nil_append, verdicts, verdict_of_held held]
  rfl

theorem value_verdicts_lastWins (before ps : List Pattern) : (verdicts .lastWins before ps).value = .ok () := by
  induction ps generalizing before with
  | nil => rfl
  | cons p ps ih =>
    have fine : (verdict .lastWins before p).value = .ok () := by
      unfold verdict
      cases holder? before p.text <;> rfl
    exact Traced.value_andThen_eq_ok.mpr ⟨(), fine, ih _⟩

end Group

/-! ### Repeated texts -/

/-- The rows at two places have one text, and no two rows in front of the later one have. -/
structure FirstRepeat (ps : List Pattern) (i j : Nat) (old new : Pattern) : Prop where
  earlier : i < j
  old_at : ps[i]? = some old
  new_at : ps[j]? = some new
  same : old.text = new.text
  first : ∀ (k l : Nat) (p q : Pattern), k < l → ps[k]? = some p → ps[l]? = some q → p.text = q.text → j ≤ l

/-- Texts are distinct unless two places have the same. -/
theorem nodup_text_iff {ps : List Pattern} : (ps.map Pattern.text).Nodup ↔
    ∀ (k l : Nat) (p q : Pattern), k < l → ps[k]? = some p → ps[l]? = some q → p.text ≠ q.text := by
  rw [List.Nodup, List.pairwise_map, List.pairwise_iff_getElem]
  constructor
  · intro h k l p q hkl hp hq
    obtain ⟨hk, rfl⟩ := List.getElem?_eq_some_iff.mp hp
    obtain ⟨hl, rfl⟩ := List.getElem?_eq_some_iff.mp hq
    exact h k l hk hl hkl
  · intro h k l hk hl hkl
    exact h k l _ _ hkl (List.getElem?_eq_getElem hk) (List.getElem?_eq_getElem hl)

namespace FirstRepeat
variable {ps : List Pattern} {i j k : Nat} {old new p : Pattern}

theorem exists_of_not_nodup (h : ¬(ps.map Pattern.text).Nodup) : ∃ i j old new, FirstRepeat ps i j old new := by
  classical
  rw [nodup_text_iff] at h
  push Not at h
  obtain ⟨k, l, p, q, hkl, hp, hq, same⟩ := h
  have repeats : ∃ l, ∃ (k : Nat) (p q : Pattern), k < l ∧ ps[k]? = some p ∧ ps[l]? = some q ∧ p.text = q.text :=
    ⟨l, k, p, q, hkl, hp, hq, same⟩
  obtain ⟨i, old, new, hij, hold, hnew, same⟩ := Nat.find_spec repeats
  exact ⟨i, _, old, new, hij, hold, hnew, same, fun k l p q hkl hp hq same =>
    Nat.find_min' repeats ⟨k, p, q, hkl, hp, hq, same⟩⟩

theorem distinct (h : FirstRepeat ps i j old new) : ((ps.take j).map Pattern.text).Nodup := by
  rw [nodup_text_iff]
  intro k l p q hkl hp hq same
  obtain ⟨hl, -⟩ := List.getElem?_eq_some_iff.mp hq
  rw [List.length_take] at hl
  rw [List.getElem?_take_of_lt (by omega)] at hp hq
  have := h.first k l p q hkl hp hq same
  omega

/-- No other row in front of the later one has its text. -/
theorem unique (h : FirstRepeat ps i j old new) (hk : k < j) (hp : ps[k]? = some p) (same : p.text = new.text) :
    k = i := by
  rcases Nat.lt_trichotomy k i with lt | rfl | gt
  · have := h.first k i p old lt hp h.old_at (same.trans h.same.symm)
    have := h.earlier
    omega
  · rfl
  · have := h.first i k old p gt h.old_at hp (h.same.trans same.symm)
    omega

end FirstRepeat

/-! ### Compiling -/

namespace Decoder

theorem compile_of_distinct {ps : List Pattern} (policy : Policy) (distinct : (ps.map Pattern.text).Nodup) :
    compile policy ps = ⟨.ok (ofRows ps), [.compiled ps.length (ps.map Pattern.shape).eraseDups.length]⟩ := by
  have fine : Group.verdicts policy [] ps = ⟨.ok (), []⟩ := Group.verdicts_of_distinct policy distinct
  rw [compile_eq, fine]
  rfl

theorem compile_of_firstRepeat {ps : List Pattern} {i j : Nat} {old new : Pattern} (h : FirstRepeat ps i j old new) :
    compile .reject ps = ⟨.error (.collision new.text old.mnemonic new.mnemonic), []⟩ := by
  obtain ⟨hj, rfl⟩ := List.getElem?_eq_some_iff.mp h.new_at
  have mem : old ∈ ps.take j := List.mem_of_getElem? ((List.getElem?_take_of_lt h.earlier).trans h.old_at)
  have split : ps = ps.take j ++ ps[j] :: ps.drop (j + 1) := by
    rw [← List.drop_eq_getElem_cons hj, List.take_append_drop]
  have refused := Group.verdicts_of_repeat h.distinct mem h.same (ps.drop (j + 1))
  rw [← split] at refused
  rw [compile_eq, refused]
  rfl

theorem value_compile_lastWins (ps : List Pattern) : (compile .lastWins ps).value = .ok (ofRows ps) := by
  rw [compile_eq]
  exact Traced.value_andThen_eq_ok.mpr ⟨(), Group.value_verdicts_lastWins [] ps, rfl⟩

/-- A strict table compiles exactly if no text comes twice, and otherwise the first row whose text was there already is
    refused, by the one row that had it. Nothing else is ever wrong with rows: each shape has a group, and with
    shadowing every table compiles. -/
theorem refused_at_first_repeat (ps : List Pattern) :
    (default : Policy) = .reject ∧
    ((∃ d, (compile .reject ps).value = .ok d) ↔ (ps.map Pattern.text).Nodup) ∧
    (∀ e, (compile .reject ps).value = .error e ↔
      ∃ i j old new, FirstRepeat ps i j old new ∧ e = .collision new.text old.mnemonic new.mnemonic) ∧
    (∀ i j old new, FirstRepeat ps i j old new →
      ∀ k p, k < j → ps[k]? = some p → p.text = new.text → k = i) ∧
    (∀ p : Pattern, ∃ g, Group.ofShape? p.shape = .ok g) ∧
    ∃ d, (compile .lastWins ps).value = .ok d := by
  refine ⟨rfl, ?_, fun e => ?_, fun i j old new h k p hk hp same => h.unique hk hp same,
    fun p => ⟨_, Group.ofShape?_shape p⟩, ⟨_, value_compile_lastWins ps⟩⟩
  · constructor
    · rintro ⟨d, h⟩
      by_contra repeats
      obtain ⟨i, j, old, new, first⟩ := FirstRepeat.exists_of_not_nodup repeats
      rw [compile_of_firstRepeat first] at h
      cases h
    · intro distinct
      exact ⟨_, by rw [compile_of_distinct .reject distinct]⟩
  · constructor
    · intro h
      have repeats : ¬(ps.map Pattern.text).Nodup := by
        intro distinct
        rw [compile_of_distinct .reject distinct] at h
        cases h
      obtain ⟨i, j, old, new, first⟩ := FirstRepeat.exists_of_not_nodup repeats
      rw [compile_of_firstRepeat first] at h
      exact ⟨i, j, old, new, first, (Except.error.inj h).symm⟩
    · rintro ⟨i, j, old, new, first, rfl⟩
      rw [compile_of_firstRepeat first]

/-- A text that comes three times, with another row between. -/
def repeating : List Pattern :=
  let n := Cell.operand .n
  let x := Cell.operand .x
  [.row 0x6 x n n "SETR", .row 0x7 x n n "ADDI", .row 0x6 x n n "LOADI", .row 0x6 x n n "MOVE"]

theorem refused_at_first_repeat_repeating :
    (compile .reject repeating).value = .error (.collision "6XNN" "SETR" "LOADI") := by
  obtain ⟨-, -, refused, -⟩ := refused_at_first_repeat repeating
  refine (refused _).mpr ⟨0, 2, _, _, ⟨by decide, rfl, rfl, by decide +kernel, ?_⟩, by decide +kernel⟩
  intro k l p q hkl hp hq same
  by_contra early
  obtain ⟨rfl, rfl⟩ : k = 0 ∧ l = 1 := by omega
  cases hp
  cases hq
  exact absurd same (by decide +kernel)

end Decoder

end Chip8Disasm
