import Chip8Disasm.Text.Lines
import Mathlib.Data.List.Basic

/-! Texts as their lines and lines as their fields, said by how a text is put together. Every text is put together in
    exactly one way, which `lines` and `fields` find. -/

namespace Chip8Disasm.Text

/-! ### Lines -/

/-- The lines of a text. A line ends at a newline, and one carriage return directly before it belongs to the end. What
    stands behind the last newline is a line if it is anything. -/
inductive Lined : List Char → List (List Char) → Prop
  | nil : Lined [] []
  | last {line : List Char} (whole : '\n' ∉ line) (filled : line ≠ []) : Lined line [line]
  | ended {line rest : List Char} {lines : List (List Char)} (whole : '\n' ∉ line)
      (bare : line.getLast? ≠ some '\r') (more : Lined rest lines) : Lined (line ++ '\n' :: rest) (line :: lines)
  | returned {line rest : List Char} {lines : List (List Char)} (whole : '\n' ∉ line) (more : Lined rest lines) :
      Lined (line ++ '\r' :: '\n' :: rest) (line :: lines)

/-- Texts are built from a last piece without a newline by putting ended pieces in front. -/
@[elab_as_elim]
theorem piece_induction {motive : List Char → Prop} (text : List Char)
    (last : ∀ piece, '\n' ∉ piece → motive piece)
    (ended : ∀ piece rest, '\n' ∉ piece → motive rest → motive (piece ++ '\n' :: rest)) : motive text := by
  induction h : text.length using Nat.strongRecOn generalizing text with
  | ind n ih =>
    by_cases hn : '\n' ∈ text
    · obtain ⟨piece, rest, rfl, whole⟩ := List.eq_append_cons_of_mem hn
      have shorter : rest.length < n := by
        rw [← h, List.length_append, List.length_cons]
        omega
      exact ended piece rest whole (ih rest.length shorter rest rfl)
    · exact last text hn

@[simp]
theorem dropReturn_concat (line : List Char) : dropReturn (line ++ ['\r']) = line := by
  simp [dropReturn]

theorem dropReturn_of_bare {line : List Char} (h : line.getLast? ≠ some '\r') : dropReturn line = line := by
  rw [dropReturn, if_neg h]

theorem decide_newline_of_whole {line : List Char} (whole : '\n' ∉ line) : ∀ c ∈ line, decide (c = '\n') = false := by
  intro c hc
  refine decide_eq_false ?_
  rintro rfl
  exact whole hc

theorem lines_of_whole {line : List Char} (whole : '\n' ∉ line) (filled : line ≠ []) : lines line = [line] := by
  have single : line.splitOnP (fun c => c = '\n') = [line] :=
    List.splitOnP_eq_singleton (decide_newline_of_whole whole)
  simp [lines, single, ofPieces, filled]

theorem lines_ended {line : List Char} (whole : '\n' ∉ line) (rest : List Char) :
    lines (line ++ '\n' :: rest) = dropReturn line :: lines rest := by
  have split : (line ++ '\n' :: rest).splitOnP (fun c => c = '\n') = line :: rest.splitOnP fun c => c = '\n' :=
    List.splitOnP_append_cons_of_forall_mem (decide_newline_of_whole whole) _ rfl _
  obtain ⟨piece, pieces, h⟩ := List.exists_cons_of_ne_nil (List.splitOnP_ne_nil (fun c => decide (c = '\n')) rest)
  rw [lines, split, lines, h]
  rfl

theorem lines_ended_return {line : List Char} (whole : '\n' ∉ line) (rest : List Char) :
    lines (line ++ '\r' :: '\n' :: rest) = line :: lines rest := by
  have whole' : '\n' ∉ line ++ ['\r'] := by simp [whole]
  rw [List.append_cons, lines_ended whole', dropReturn_concat]

theorem lines_of_lined {text : List Char} {ls : List (List Char)} (h : Lined text ls) : lines text = ls := by
  induction h with
  | nil => rfl
  | last whole filled => exact lines_of_whole whole filled
  | ended whole bare _ ih => rw [lines_ended whole, dropReturn_of_bare bare, ih]
  | returned whole _ ih => rw [lines_ended_return whole, ih]

theorem exists_lined (text : List Char) : ∃ ls, Lined text ls := by
  induction text using piece_induction with
  | last piece whole =>
    by_cases h : piece = []
    · exact ⟨[], h ▸ .nil⟩
    · exact ⟨_, .last whole h⟩
  | ended piece rest whole ih =>
    obtain ⟨ls, more⟩ := ih
    by_cases h : piece.getLast? = some '\r'
    · obtain ⟨line, rfl⟩ := List.getLast?_eq_some_iff.mp h
      rw [List.append_assoc]
      exact ⟨_, .returned (fun hn => whole (List.mem_append_left _ hn)) more⟩
    · exact ⟨_, .ended whole h more⟩

theorem lined_iff {text : List Char} {ls : List (List Char)} : Lined text ls ↔ lines text = ls := by
  constructor
  · exact lines_of_lined
  · rintro rfl
    obtain ⟨ls, h⟩ := exists_lined text
    rwa [lines_of_lined h]

/-! ### Fields -/

/-- The fields of a line: its longest runs of characters that are not white space. -/
inductive Fielded : List Char → List (List Char) → Prop
  | nil : Fielded [] []
  | blank {c : Char} {rest : List Char} {fields : List (List Char)} (blank : isBlank c = true)
      (more : Fielded rest fields) : Fielded (c :: rest) fields
  | field {field rest : List Char} {fields : List (List Char)} (filled : field ≠ [])
      (solid : ∀ c ∈ field, isBlank c = false) (longest : ∀ c ∈ rest.head?, isBlank c = true)
      (more : Fielded rest fields) : Fielded (field ++ rest) (field :: fields)

@[simp]
theorem fields_nil : fields [] = [] := rfl

theorem fields_append_blank {c : Char} (blank : isBlank c = true) (before after : List Char) :
    fields (before ++ c :: after) = fields before ++ fields after := by
  rw [fields, List.splitOnP_append_cons _ _ blank, List.filter_append]
  rfl

theorem fields_cons_blank {c : Char} (blank : isBlank c = true) (rest : List Char) : fields (c :: rest) = fields rest :=
  fields_append_blank blank [] rest

theorem fields_of_solid {field : List Char} (filled : field ≠ []) (solid : ∀ c ∈ field, isBlank c = false) :
    fields field = [field] := by
  rw [fields, List.splitOnP_eq_singleton solid]
  simp [filled]

theorem fields_of_fielded {line : List Char} {fs : List (List Char)} (h : Fielded line fs) : fields line = fs := by
  induction h with
  | nil => rfl
  | blank blank _ ih => rw [fields_cons_blank blank, ih]
  | @field field rest _ filled solid longest _ ih =>
    match rest with
    | [] => rw [List.append_nil, fields_of_solid filled solid, ← ih, fields_nil]
    | c :: rest =>
      have blank : isBlank c = true := longest c rfl
      rw [fields_append_blank blank, fields_of_solid filled solid, ← ih, fields_cons_blank blank]
      rfl

theorem exists_fielded (line : List Char) : ∃ fs, Fielded line fs := by
  induction line with
  | nil => exact ⟨[], .nil⟩
  | cons c rest ih =>
    obtain ⟨fs, more⟩ := ih
    cases hc : isBlank c with
    | true => exact ⟨fs, .blank hc more⟩
    | false =>
      have alone : ∀ d ∈ [c], isBlank d = false := List.forall_mem_singleton.mpr hc
      -- The character opens a field of its own unless a field stands right behind it.
      cases more with
      | nil => exact ⟨_, .field (List.cons_ne_nil c []) alone (fun _ hd => nomatch hd) .nil⟩
      | @blank b _ _ blank more =>
        exact ⟨_, .field (List.cons_ne_nil c []) alone (fun d hd => Option.some.inj hd ▸ blank) (.blank blank more)⟩
      | @field field _ _ _ solid longest more =>
        exact ⟨_, .field (List.cons_ne_nil c field) (List.forall_mem_cons.mpr ⟨hc, solid⟩) longest more⟩

theorem fielded_iff {line : List Char} {fs : List (List Char)} : Fielded line fs ↔ fields line = fs := by
  constructor
  · exact fields_of_fielded
  · rintro rfl
    obtain ⟨fs, h⟩ := exists_fielded line
    rwa [fields_of_fielded h]

end Chip8Disasm.Text
