import Chip8Disasm.Proofs.Shadowing
import Chip8Disasm.Proofs.Storing

/-! What compiling a table reports, row by row. Each row whose text was there already is reported once, with the last
    row that had it, so that the rows that are not reported are as many as the decoder stores. -/

namespace Chip8Disasm

/-! ### Lists -/

section
universe u
variable {α : Type u}

/-- A place of a list splits it. -/
theorem exists_split_iff {l : List α} {a : α} {P : α → Prop} :
    (∃ before after, l = before ++ a :: after ∧ ∀ b ∈ after, P b) ↔
      ∃ i : Nat, l[i]? = some a ∧ ∀ (k : Nat) (b : α), i < k → l[k]? = some b → P b := by
  constructor
  · rintro ⟨before, after, rfl, rest⟩
    refine ⟨before.length, by simp, fun k b later here => rest b ?_⟩
    obtain ⟨n, rfl⟩ := Nat.exists_eq_add_of_lt later
    rw [List.getElem?_append_right (by omega), show before.length + n + 1 - before.length = n + 1 by omega,
      List.getElem?_cons_succ] at here
    exact List.mem_of_getElem? here
  · rintro ⟨i, here, rest⟩
    obtain ⟨hi, rfl⟩ := List.getElem?_eq_some_iff.mp here
    refine ⟨l.take i, l.drop (i + 1), by rw [← List.drop_eq_getElem_cons hi, List.take_append_drop], fun b hb => ?_⟩
    obtain ⟨n, hn⟩ := List.mem_iff_getElem?.mp hb
    rw [List.getElem?_drop] at hn
    exact rest _ b (by omega) hn

end

/-! ### Rows -/

/-- The row at a place has the text of a row before it, which is the last such row. -/
structure Shadows (ps : List Pattern) (i j : Nat) (old new : Pattern) : Prop where
  earlier : i < j
  old_at : ps[i]? = some old
  new_at : ps[j]? = some new
  same : old.text = new.text
  latest : ∀ (k : Nat) (p : Pattern), i < k → k < j → ps[k]? = some p → p.text ≠ new.text

namespace Group
variable {ps : List Pattern} {p old new : Pattern} {j : Nat}

theorem holder?_take_eq_some_iff (here : ps[j]? = some new) :
    holder? (ps.take j) new.text = some old ↔ ∃ i, Shadows ps i j old new := by
  rw [holder?, getLast?_filter_eq_some_iff, decide_eq_true_eq, exists_split_iff]
  simp only [List.getElem?_take, Option.ite_none_right_eq_some, decide_eq_false_iff_not]
  constructor
  · rintro ⟨same, i, ⟨earlier, old_at⟩, latest⟩
    exact ⟨i, earlier, old_at, here, same, fun k p later before there => latest k p later ⟨before, there⟩⟩
  · rintro ⟨i, shadows⟩
    exact ⟨shadows.same, i, ⟨shadows.earlier, shadows.old_at⟩, fun k p later there =>
      shadows.latest k p later there.1 there.2⟩

/-- What is reported of the row at a place. -/
def report? (ps : List Pattern) (j : Nat) : Option Record :=
  ps[j]?.bind fun new => (holder? (ps.take j) new.text).map (Record.shadowed new)

theorem report?_eq_some_iff {rec : Record} :
    report? ps j = some rec ↔ ∃ i old new, Shadows ps i j old new ∧ rec = .shadowed new old := by
  rw [report?, Option.bind_eq_some_iff]
  constructor
  · rintro ⟨new, here, h⟩
    obtain ⟨old, held, rfl⟩ := Option.map_eq_some_iff.mp h
    obtain ⟨i, shadows⟩ := (holder?_take_eq_some_iff here).mp held
    exact ⟨i, old, new, shadows, rfl⟩
  · rintro ⟨i, old, new, shadows, rfl⟩
    have held := (holder?_take_eq_some_iff shadows.new_at).mpr ⟨i, shadows⟩
    exact ⟨new, shadows.new_at, Option.map_eq_some_iff.mpr ⟨old, held, rfl⟩⟩

theorem shadowings_concat (before ps : List Pattern) (p : Pattern) :
    shadowings before (ps ++ [p]) =
      shadowings before ps ++ ((holder? (before ++ ps) p.text).map (Record.shadowed p)).toList := by
  have none : ∀ before, shadowings before [] = [] := fun _ => rfl
  induction ps generalizing before with
  | nil => simp [shadowings_cons, none]
  | cons q ps ih => simp [shadowings_cons, ih]

theorem shadowings_eq_filterMap (ps : List Pattern) :
    shadowings [] ps = (List.range ps.length).filterMap (report? ps) := by
  induction ps using List.reverseRecOn with
  | nil => rfl
  | append_singleton ps p ih =>
    have same : ∀ j ∈ List.range ps.length, report? (ps ++ [p]) j = report? ps j := by
      intro j hj
      have hj := List.mem_range.mp hj
      rw [report?, report?, List.getElem?_append_left hj, List.take_append_of_le_length (Nat.le_of_lt hj)]
    have last : report? (ps ++ [p]) ps.length = (holder? ps p.text).map (Record.shadowed p) := by
      rw [report?, List.getElem?_concat_length, List.take_left]
      rfl
    rw [shadowings_concat, ih, List.length_append, List.length_singleton, List.range_succ, List.filterMap_append,
      List.filterMap_congr same, List.nil_append, List.filterMap_cons, last]
    cases holder? ps p.text <;> rfl

/-- A row is reported or brings a new text. -/
theorem length_shadowings_add (ps : List Pattern) :
    (ps.map Pattern.text).eraseDups.length + (shadowings [] ps).length = ps.length := by
  induction ps using List.reverseRecOn with
  | nil => rfl
  | append_singleton ps p ih =>
    rw [shadowings_concat, List.map_append, List.map_singleton, eraseDups_concat, List.nil_append]
    cases held : holder? ps p.text with
    | none =>
      rw [if_neg (holder?_eq_none_iff.mp held)]
      simp only [List.length_append, List.length_singleton, Option.map_none, Option.toList_none, List.length_nil]
      omega
    | some old =>
      have there : p.text ∈ ps.map Pattern.text := by
        obtain ⟨hold, same⟩ := holder?_eq_some held
        exact List.mem_map.mpr ⟨old, hold, same⟩
      rw [if_pos there]
      simp only [List.length_append, List.length_singleton, Option.map_some, Option.toList_some]
      omega

end Group

/-! ### Tables -/

namespace Decoder
variable {policy : Policy} {ps : List Pattern} {d : Decoder}

theorem distinct_of_compile_reject (compiled : (compile .reject ps).value = .ok d) : (ps.map Pattern.text).Nodup := by
  by_contra repeats
  obtain ⟨i, j, old, new, first⟩ := FirstRepeat.exists_of_not_nodup repeats
  rw [compile_of_firstRepeat first] at compiled
  cases compiled

/-- A table that compiles stores as many rows as it does not report. -/
theorem size_add_length_shadowings (compiled : (compile policy ps).value = .ok d) :
    d.size + (shadowings policy ps).length = ps.length := by
  obtain rfl := eq_ofRows_of_compile compiled
  rw [size_ofRows]
  cases policy with
  | lastWins => exact Group.length_shadowings_add ps
  | reject =>
    have silent : Group.verdicts .lastWins [] ps = ⟨.ok (), []⟩ :=
      Group.verdicts_of_distinct .lastWins (distinct_of_compile_reject compiled)
    have all := Group.length_shadowings_add ps
    rw [Group.verdicts_lastWins, Traced.mk.injEq] at silent
    rw [silent.2] at all
    exact all

theorem filter_warn_log_compile (compiled : (compile policy ps).value = .ok d) :
    (compile policy ps).log.filter (fun rec => rec.level = .warn) = shadowings policy ps := by
  rw [log_compile_of_ok compiled, List.filter_append]
  have all : (shadowings policy ps).filter (fun rec => rec.level = .warn) = shadowings policy ps :=
    List.filter_eq_self.mpr fun rec hrec => decide_eq_true (level_of_mem_shadowings hrec)
  rw [all]
  exact List.append_nil _

/-- With shadowing, a table reports each row whose text was there before, one after the other, with the last row that
    had the text, and then its size. A strict table reports its size if it compiles, and nothing if it is refused. So
    the rows that are not reported are as many as the decoder stores. -/
theorem each_shadowing_reported_once (ps : List Pattern) :
    (∃ report : Nat → Option (Level × String),
      (∀ j line, report j = some line ↔ ∃ i old new, Shadows ps i j old new ∧
        line = (.warn, s!"pattern {new.text} ({new.mnemonic}) shadows {old.text} ({old.mnemonic})")) ∧
      (compile .lastWins ps).log.map (fun rec => (rec.level, rec.text)) =
        (List.range ps.length).filterMap report ++
          [(.debug, s!"compiled {ps.length} patterns into {(ps.map Pattern.shape).eraseDups.length} shapes")]) ∧
    (∀ d, (compile .reject ps).value = .ok d → (compile .reject ps).log.map (fun rec => (rec.level, rec.text)) =
      [(.debug, s!"compiled {ps.length} patterns into {(ps.map Pattern.shape).eraseDups.length} shapes")]) ∧
    (∀ e, (compile .reject ps).value = .error e → (compile .reject ps).log = []) ∧
    ∀ policy d, (compile policy ps).value = .ok d →
      d.size + ((compile policy ps).log.filter fun rec => rec.level = .warn).length = ps.length := by
  refine ⟨⟨fun j => (Group.report? ps j).map fun rec => (rec.level, rec.text), fun j line => ?_, ?_⟩,
    fun d compiled => ?_, fun e => log_compile_of_error, fun policy d compiled => ?_⟩
  · rw [Option.map_eq_some_iff]
    constructor
    · rintro ⟨rec, h, rfl⟩
      obtain ⟨i, old, new, shadows, rfl⟩ := Group.report?_eq_some_iff.mp h
      exact ⟨i, old, new, shadows, rfl⟩
    · rintro ⟨i, old, new, shadows, rfl⟩
      exact ⟨_, Group.report?_eq_some_iff.mpr ⟨i, old, new, shadows, rfl⟩, rfl⟩
  · rw [log_compile_of_ok (value_compile_lastWins ps), shapes_ofRows, List.map_append, shadowings,
      Group.shadowings_eq_filterMap, List.map_filterMap]
    rfl
  · rw [log_compile_of_ok compiled, eq_ofRows_of_compile compiled, shapes_ofRows]
    rfl
  · rw [filter_warn_log_compile compiled, size_add_length_shadowings compiled]

/-- Of the rows with one text, the last shadows the one that shadowed the first. -/
theorem each_shadowing_reported_once_repeating :
    (∃ report : Nat → Option (Level × String),
      report 2 = some (.warn, "pattern 6XNN (LOADI) shadows 6XNN (SETR)") ∧
      report 3 = some (.warn, "pattern 6XNN (MOVE) shadows 6XNN (LOADI)") ∧
      (compile .lastWins repeating).log.map (fun rec => (rec.level, rec.text)) =
        (List.range 4).filterMap report ++ [(.debug, "compiled 4 patterns into 1 shapes")]) ∧
    ∃ d, (compile .lastWins repeating).value = .ok d ∧
      d.size + ((compile .lastWins repeating).log.filter fun rec => rec.level = .warn).length = 4 := by
  obtain ⟨⟨report, reported, log⟩, -, -, count⟩ := each_shadowing_reported_once repeating
  have third : Shadows repeating 0 2 repeating[0] repeating[2] := by
    refine ⟨by decide, rfl, rfl, by decide +kernel, fun k p _ _ here => ?_⟩
    obtain rfl : k = 1 := by omega
    obtain rfl := Option.some.inj here
    decide +kernel
  have fourth : Shadows repeating 2 3 repeating[2] repeating[3] :=
    ⟨by decide, rfl, rfl, by decide +kernel, fun k p _ _ _ => by omega⟩
  refine ⟨⟨report, (reported 2 _).mpr ⟨0, _, _, third, by decide +kernel⟩,
    (reported 3 _).mpr ⟨2, _, _, fourth, by decide +kernel⟩, ?_⟩, _, value_compile_lastWins repeating,
    count .lastWins _ (value_compile_lastWins repeating)⟩
  have closing : s!"compiled {repeating.length} patterns into {(repeating.map Pattern.shape).eraseDups.length} shapes" =
      "compiled 4 patterns into 1 shapes" := by decide +kernel
  rwa [closing] at log

end Decoder

end Chip8Disasm
