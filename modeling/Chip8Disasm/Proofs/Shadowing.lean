import Chip8Disasm.Proofs.Collisions

/-! What compiling a table reports. A strict table is compiled in silence, and with shadowing each row whose text was
    there already is reported with the last row that had it. -/

namespace Chip8Disasm

/-! ### Logs -/

namespace Traced
variable {α β ε : Type} {t : Traced (Except ε α)} {next : α → Traced (Except ε β)}

theorem log_andThen_of_ok {a : α} (h : t.value = .ok a) : (t.andThen next).log = t.log ++ (next a).log := by
  obtain ⟨_, log⟩ := t
  obtain rfl := h
  rfl

theorem log_andThen_of_error {e : ε} (h : t.value = .error e) : (t.andThen next).log = t.log := by
  obtain ⟨_, log⟩ := t
  obtain rfl := h
  rfl

end Traced

/-! ### Rows -/

/-- What is reported of rows that come after other rows: each that shadows one of those before it. -/
def Group.shadowings (before ps : List Pattern) : List Record :=
  ps.zipIdx.filterMap fun row => (holder? (before ++ ps.take row.2) row.1.text).map (Record.shadowed row.1)

namespace Group
variable {before ps : List Pattern}

theorem shadowings_cons (before : List Pattern) (p : Pattern) (ps : List Pattern) :
    shadowings before (p :: ps) =
      ((holder? before p.text).map (Record.shadowed p)).toList ++ shadowings (before ++ [p]) ps := by
  have later : ∀ k, before ++ (p :: ps).take (k + 1) = before ++ [p] ++ ps.take k := fun k => by simp
  rw [shadowings, List.zipIdx_cons, List.zipIdx_succ, List.filterMap_cons, List.take_zero, List.append_nil,
    List.filterMap_map]
  simp only [Function.comp_def, later]
  cases holder? before p.text <;> rfl

theorem verdicts_lastWins (before ps : List Pattern) :
    verdicts .lastWins before ps = ⟨.ok (), shadowings before ps⟩ := by
  induction ps generalizing before with
  | nil => rfl
  | cons p ps ih =>
    rw [verdicts, shadowings_cons]
    unfold verdict
    cases holder? before p.text <;> simp only [Traced.andThen, ih] <;> rfl

theorem log_verdicts_reject (before ps : List Pattern) : (verdicts .reject before ps).log = [] := by
  induction ps generalizing before with
  | nil => rfl
  | cons p ps ih =>
    rw [verdicts]
    unfold verdict
    cases holder? before p.text with
    | none => exact ih (before ++ [p])
    | some old => rfl

end Group

/-! ### Tables -/

namespace Decoder
variable {policy : Policy} {ps : List Pattern}

/-- What a table reports of its rows. -/
def shadowings (policy : Policy) (ps : List Pattern) : List Record :=
  match policy with
  | .reject => []
  | .lastWins => Group.shadowings [] ps

theorem level_of_mem_shadowings {policy : Policy} {ps : List Pattern} {rec : Record} (h : rec ∈ shadowings policy ps) :
    rec.level = .warn := by
  cases policy with
  | reject => cases h
  | lastWins =>
    obtain ⟨row, -, held⟩ := List.mem_filterMap.mp h
    obtain ⟨old, -, rfl⟩ := Option.map_eq_some_iff.mp held
    rfl

theorem log_verdicts (policy : Policy) (ps : List Pattern) :
    (Group.verdicts policy [] ps).log = shadowings policy ps := by
  cases policy with
  | reject => exact Group.log_verdicts_reject [] ps
  | lastWins => rw [Group.verdicts_lastWins]; rfl

/-- A table that compiles reports its size last. -/
theorem log_compile_of_ok {d : Decoder} (h : (compile policy ps).value = .ok d) :
    (compile policy ps).log = shadowings policy ps ++ [.compiled ps.length d.shapes.length] := by
  obtain rfl := eq_ofRows_of_compile h
  rw [compile_eq] at h ⊢
  obtain ⟨_, passed, -⟩ := Traced.value_andThen_eq_ok.mp h
  rw [Traced.log_andThen_of_ok passed, log_verdicts]
  simp [shapes, ofRows, Group.allOf]

/-- A table that is refused reports nothing. -/
theorem log_compile_of_error {e : TableError} (h : (compile policy ps).value = .error e) :
    (compile policy ps).log = [] := by
  cases policy with
  | lastWins => rw [value_compile_lastWins] at h; cases h
  | reject =>
    rw [compile_eq] at h ⊢
    rcases Traced.value_andThen_eq_error.mp h with refused | ⟨_, -, ends⟩
    · rw [Traced.log_andThen_of_error refused, Group.log_verdicts_reject]
    · cases ends

end Decoder

end Chip8Disasm
