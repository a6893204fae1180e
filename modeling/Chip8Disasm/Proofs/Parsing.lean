import Chip8Disasm.Pattern.Table
import Chip8Disasm.Proofs.Matching
import Chip8Disasm.Proofs.Splitting
import Mathlib.Data.Set.List
import Mathlib.Data.List.ReduceOption
import Mathlib.Data.List.TakeWhile

/-! What texts are pattern tables. A table is read exactly if each of its lines holds a row or nothing, and otherwise
    the first line that holds something else says what is wrong. -/

namespace Chip8Disasm

/-! ### Patterns -/

/-- Four characters that are digits or operand letters. -/
def Pattern.WellFormed (text : List Char) : Prop :=
  text.length = 4 ∧ ∀ c ∈ text, c ∈ "0123456789ABCDEFNXY".toList

theorem Cell.exists_char_iff {c : Char} : (∃ cell : Cell, cell.char = c) ↔ c ∈ "0123456789ABCDEFNXY".toList := by
  have written : "0123456789ABCDEFNXY".toList = all.map char := by decide +kernel
  rw [written, List.mem_map]
  constructor
  · rintro ⟨cell, rfl⟩
    exact ⟨cell, cell.mem_all, rfl⟩
  · rintro ⟨cell, -, h⟩
    exact ⟨cell, h⟩

namespace Pattern

theorem wellFormed_iff {text : List Char} :
    WellFormed text ↔ ∃ cells : List Cell, cells.length = 4 ∧ cells.map Cell.char = text := by
  simp only [WellFormed, ← Cell.exists_char_iff]
  constructor
  · rintro ⟨four, written⟩
    obtain ⟨cells, rfl⟩ : text ∈ Set.range (List.map Cell.char) := by
      rw [Set.range_list_map]
      exact written
    exact ⟨cells, by rwa [List.length_map] at four, rfl⟩
  · rintro ⟨cells, four, rfl⟩
    refine ⟨by rwa [List.length_map], fun c hc => ?_⟩
    obtain ⟨cell, -, h⟩ := List.mem_map.mp hc
    exact ⟨cell, h⟩

theorem exists_ofText? {text : String} (h : WellFormed text.toList) (mnemonic : String) :
    ∃ p, ofText? text mnemonic = .ok p := by
  obtain ⟨cells, four, written⟩ := wellFormed_iff.mp h
  exact ⟨⟨cells, mnemonic, four⟩, ofText?_eq_ok_iff.mpr ⟨by rw [← String.toList_inj, toList_text, written], rfl⟩⟩

theorem wellFormed_text (p : Pattern) : WellFormed p.text.toList :=
  wellFormed_iff.mpr ⟨p.cells, p.length_cells, p.toList_text.symm⟩

/-- The only error of a pattern names its text. -/
theorem ofText?_eq_error_iff {text mnemonic : String} {e : TableError} :
    ofText? text mnemonic = .error e ↔ ¬WellFormed text.toList ∧ e = .badPattern text := by
  by_cases h : WellFormed text.toList
  · obtain ⟨p, hp⟩ := exists_ofText? h mnemonic
    simp [hp, h]
  · have refused : ofText? text mnemonic = .error (.badPattern text) := by
      unfold ofText?
      split
      · rfl
      · rename_i cells written
        rw [dif_neg fun four => h (wellFormed_iff.mpr ⟨cells, four, Cell.mapM_ofChar?_eq_some_iff.mp written⟩)]
    simp [refused, h, eq_comm]

end Pattern

namespace Table

/-! ### Lines -/

/-- A line holds the fields that stand before its first semicolon. -/
def Holds (line : List Char) (fields : List (List Char)) : Prop :=
  ∃ code comment, line = code ++ comment ∧ ';' ∉ code ∧ (∀ c ∈ comment.head?, c = ';') ∧ Text.Fielded code fields

/-- A line that can be read, with its row if it has one. -/
inductive Reads : List Char → Option Pattern → Prop
  | skipped {line : List Char} (held : Holds line []) : Reads line none
  | row {line pattern mnemonic : List Char} {p : Pattern} (held : Holds line [pattern, mnemonic])
      (wellFormed : Pattern.WellFormed pattern)
      (built : Pattern.ofText? (String.ofList pattern) (String.ofList mnemonic) = .ok p) : Reads line (some p)

/-- A line that cannot be read, with what is reported if a number of lines come before it. -/
inductive Fails (before : Nat) : List Char → TableError → Prop
  | fields {line : List Char} {fields : List (List Char)} (held : Holds line fields) (skipped : fields.length ≠ 0)
      (row : fields.length ≠ 2) : Fails before line (.badLine (before + 1) (String.ofList line))
  | pattern {line pattern mnemonic : List Char} (held : Holds line [pattern, mnemonic])
      (malformed : ¬Pattern.WellFormed pattern) : Fails before line (.badPattern (String.ofList pattern))

theorem code_append {code comment : List Char} (bare : ';' ∉ code) (comments : ∀ c ∈ comment.head?, c = ';') :
    Table.code (code ++ comment) = code := by
  have plain : ∀ c ∈ code, decide (c ≠ ';') = true := by
    intro c hc
    refine decide_eq_true ?_
    rintro rfl
    exact bare hc
  rw [Table.code, List.takeWhile_append_of_pos plain]
  match comment with
  | [] => simp
  | c :: comment =>
    obtain rfl := comments c rfl
    simp

theorem holds_iff {line : List Char} {fields : List (List Char)} :
    Holds line fields ↔ Text.fields (code line) = fields := by
  constructor
  · rintro ⟨code, comment, rfl, bare, comments, fielded⟩
    rw [code_append bare comments, Text.fielded_iff.mp fielded]
  · intro h
    refine ⟨code line, line.dropWhile fun c => c ≠ ';', ?_, fun hc => ?_, fun c hc => ?_, Text.fielded_iff.mpr h⟩
    · exact List.takeWhile_append_dropWhile.symm
    · simpa using List.mem_takeWhile_imp hc
    · have := List.head?_dropWhile_not (fun c => decide (c ≠ ';')) line
      rw [Option.mem_def.mp hc] at this
      simpa using this

theorem readLine_eq_ok_iff {number : Nat} {line : List Char} {row : Option Pattern} :
    readLine number line = .ok row ↔ Reads line row := by
  unfold readLine
  constructor
  · intro h
    split at h
    · rename_i none
      cases h
      exact .skipped (holds_iff.mpr none)
    · rename_i pattern mnemonic two
      cases built : Pattern.ofText? (String.ofList pattern) (String.ofList mnemonic) with
      | error e => rw [built] at h; cases h
      | ok p =>
        rw [built] at h
        cases h
        have wellFormed := p.wellFormed_text
        rw [(Pattern.ofText?_eq_ok_iff.mp built).1, String.toList_ofList] at wellFormed
        exact .row (holds_iff.mpr two) wellFormed built
    · cases h
  · intro h
    cases h with
    | skipped held => rw [holds_iff.mp held]
    | row held _ built =>
      rw [holds_iff.mp held]
      dsimp only
      rw [built]
      rfl

theorem readLine_eq_error_iff {before : Nat} {line : List Char} {e : TableError} :
    readLine (before + 1) line = .error e ↔ Fails before line e := by
  unfold readLine
  constructor
  · intro h
    split at h
    · cases h
    · rename_i pattern mnemonic two
      cases built : Pattern.ofText? (String.ofList pattern) (String.ofList mnemonic) with
      | ok p => rw [built] at h; cases h
      | error e' =>
        rw [built] at h
        cases h
        obtain ⟨malformed, rfl⟩ := Pattern.ofText?_eq_error_iff.mp built
        rw [String.toList_ofList] at malformed
        exact .pattern (holds_iff.mpr two) malformed
    · rename_i none two
      cases h
      refine .fields (holds_iff.mpr rfl) (fun h => none (List.length_eq_zero_iff.mp h)) fun h => ?_
      obtain ⟨pattern, mnemonic, h⟩ := List.length_eq_two.mp h
      exact two _ _ h
  · intro h
    cases h with
    | @fields fields held skipped row =>
      rw [holds_iff.mp held]
      match fields with
      | [] => exact absurd rfl skipped
      | [_] => rfl
      | [_, _] => exact absurd rfl row
      | _ :: _ :: _ :: _ => rfl
    | pattern held malformed =>
      rw [holds_iff.mp held]
      dsimp only
      rw [Pattern.ofText?_eq_error_iff.mpr ⟨by rwa [String.toList_ofList], rfl⟩]
      rfl

/-! ### Tables -/

theorem readLines_cons_eq_ok_iff {number : Nat} {line : List Char} {lines : List (List Char)} {rows : List Pattern} :
    readLines number (line :: lines) = .ok rows ↔
      ∃ row rest, Reads line row ∧ readLines (number + 1) lines = .ok rest ∧ rows = row.toList ++ rest := by
  rw [readLines]
  simp only [← @readLine_eq_ok_iff number]
  cases readLine number line <;> cases readLines (number + 1) lines <;>
    simp [bind, Except.bind, pure, Except.pure, eq_comm]

theorem readLines_eq_ok_iff {number : Nat} {lines : List (List Char)} {rows : List Pattern} :
    readLines number lines = .ok rows ↔ ∃ read, List.Forall₂ Reads lines read ∧ rows = read.reduceOption := by
  induction lines generalizing number rows with
  | nil => simp [readLines, eq_comm]
  | cons line lines ih =>
    rw [readLines_cons_eq_ok_iff]
    constructor
    · rintro ⟨row, rest, reads, more, rfl⟩
      obtain ⟨read, all, rfl⟩ := ih.mp more
      refine ⟨row :: read, .cons reads all, ?_⟩
      cases row <;> rfl
    · rintro ⟨_, all, rfl⟩
      cases all with
      | @cons _ row _ read reads all =>
        refine ⟨row, read.reduceOption, reads, ih.mpr ⟨read, all, rfl⟩, ?_⟩
        cases row <;> rfl

theorem readLines_cons_eq_error_iff {k : Nat} {line : List Char} {lines : List (List Char)} {e : TableError} :
    readLines (k + 1) (line :: lines) = .error e ↔
      Fails k line e ∨ (∃ row, Reads line row) ∧ readLines (k + 2) lines = .error e := by
  rw [readLines]
  simp only [← readLine_eq_error_iff, ← @readLine_eq_ok_iff (k + 1)]
  cases readLine (k + 1) line <;> cases readLines (k + 2) lines <;> simp [bind, Except.bind, pure, Except.pure]

/-- The first line that cannot be read decides. -/
theorem readLines_eq_error_iff {k : Nat} {lines : List (List Char)} {e : TableError} :
    readLines (k + 1) lines = .error e ↔ ∃ before line after, lines = before ++ line :: after ∧
      (∀ other ∈ before, ∃ row, Reads other row) ∧ Fails (k + before.length) line e := by
  induction lines generalizing k with
  | nil => simp [readLines]
  | cons line lines ih =>
    have shift : ∀ before : List (List Char), k + (before.length + 1) = k + 1 + before.length := by omega
    rw [readLines_cons_eq_error_iff, ih]
    constructor
    · rintro (fails | ⟨reads, before, bad, after, rfl, readable, fails⟩)
      · exact ⟨[], line, lines, rfl, List.forall_mem_nil _, fails⟩
      · refine ⟨line :: before, bad, after, rfl, List.forall_mem_cons.mpr ⟨reads, readable⟩, ?_⟩
        rwa [List.length_cons, shift]
    · rintro ⟨before, bad, after, h, readable, fails⟩
      match before with
      | [] =>
        obtain ⟨rfl, rfl⟩ := List.cons.inj h
        exact .inl fails
      | other :: before =>
        obtain ⟨rfl, rfl⟩ := List.cons.inj h
        obtain ⟨reads, readable⟩ := List.forall_mem_cons.mp readable
        rw [List.length_cons, shift] at fails
        exact .inr ⟨reads, before, bad, after, rfl, readable, fails⟩

/-- A text is a table exactly if each of its lines can be read, and otherwise the first that cannot says what is
    wrong. -/
theorem accepts_grammar (text : String) :
    (∃! lines, Text.Lined text.toList lines) ∧ (∀ line, ∃! fields, Holds line fields) ∧
    (∀ rows, parse? text = .ok rows ↔ ∃ lines read,
      Text.Lined text.toList lines ∧ List.Forall₂ Reads lines read ∧ rows = read.reduceOption) ∧
    ∀ e, parse? text = .error e ↔ ∃ before line after,
      Text.Lined text.toList (before ++ line :: after) ∧ (∀ other ∈ before, ∃ row, Reads other row) ∧
        Fails before.length line e := by
  simp only [Text.lined_iff, holds_iff, existsUnique_eq']
  refine ⟨trivial, fun _ => trivial, fun rows => ?_, fun e => ?_⟩
  · rw [parse?, readLines_eq_ok_iff]
    constructor
    · rintro ⟨read, all, rfl⟩
      exact ⟨_, read, rfl, all, rfl⟩
    · rintro ⟨_, read, rfl, all, rfl⟩
      exact ⟨read, all, rfl⟩
  · rw [parse?, ← Nat.zero_add 1, readLines_eq_error_iff]
    simp only [Nat.zero_add]

/-- Lines that hold nothing are counted, and a bad line is shown with its comment. -/
example : parse? "; registers\r\n\r\n6XNN SETR ; set\r\n7XNN ; add\n" = .error (.badLine 4 "7XNN ; add") := by
  decide +kernel

end Table

end Chip8Disasm
