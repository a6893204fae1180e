import Chip8Disasm.Proofs.Parsing

/-! Tables as people write them: white space around the two parts of a row, comments behind them and idle lines
    between. However its rows are laid out, a table is read as just these rows, and what was read can be printed and
    read again. -/

namespace Chip8Disasm

/-- The two parts of a row as they are written. -/
def Pattern.parts (p : Pattern) : String × String :=
  (p.text, p.mnemonic)

theorem Pattern.parts_injective : Function.Injective Pattern.parts := by
  intro p q h
  obtain ⟨text, mnemonic⟩ := Prod.mk.inj h
  obtain ⟨_, _, _⟩ := p
  obtain ⟨_, _, _⟩ := q
  obtain rfl := text_eq_iff_cells.mp text
  obtain rfl := mnemonic
  rfl

/-! ### Fields -/

namespace Text

/-- The fields of a line are filled and solid, and made of the line's characters. -/
theorem Fielded.mem {line : List Char} {fields : List (List Char)} (h : Fielded line fields) :
    ∀ f ∈ fields, f ≠ [] ∧ ∀ c ∈ f, isBlank c = false ∧ c ∈ line := by
  induction h with
  | nil => exact List.forall_mem_nil _
  | blank _ _ ih =>
    intro f hf
    obtain ⟨filled, solid⟩ := ih f hf
    exact ⟨filled, fun c hc => ⟨(solid c hc).1, List.mem_cons_of_mem _ (solid c hc).2⟩⟩
  | field filled solid _ _ ih =>
    intro f hf
    rcases List.mem_cons.mp hf with rfl | hf
    · exact ⟨filled, fun c hc => ⟨solid c hc, List.mem_append_left _ hc⟩⟩
    · obtain ⟨filled, solid⟩ := ih f hf
      exact ⟨filled, fun c hc => ⟨(solid c hc).1, List.mem_append_right _ (solid c hc).2⟩⟩

theorem Fielded.gap {gap rest : List Char} {fields : List (List Char)} (blank : ∀ c ∈ gap, isBlank c = true)
    (more : Fielded rest fields) : Fielded (gap ++ rest) fields := by
  induction gap with
  | nil => exact more
  | cons c gap ih =>
    obtain ⟨hc, blank⟩ := List.forall_mem_cons.mp blank
    exact .blank hc (ih blank)

end Text

namespace Table

/-! ### Lines -/

/-- White space that stays on its line. -/
def Gap (cs : List Char) : Prop :=
  ∀ c ∈ cs, Text.isBlank c = true ∧ c ≠ '\n'

/-- Nothing, or a comment up to the end of its line. -/
def Remark (cs : List Char) : Prop :=
  cs = [] ∨ ∃ words, cs = ';' :: words ∧ '\n' ∉ words

/-- A text that can be the mnemonic of a row: it is filled, and neither ends a field nor starts a comment. -/
def Plain (mnemonic : List Char) : Prop :=
  mnemonic ≠ [] ∧ ∀ c ∈ mnemonic, Text.isBlank c = false ∧ c ≠ ';'

/-- The ways of writing a line, with the parts of its row if it has one. -/
inductive Written : List Char → Option (String × String) → Prop
  | idle {gap remark : List Char} (blank : Gap gap) (remarked : Remark remark) : Written (gap ++ remark) none
  | row {before between after remark : List Char} {pattern mnemonic : String} (opening : Gap before)
      (parting : Gap between) (apart : between ≠ []) (closing : Gap after) (remarked : Remark remark) :
      Written (before ++ (pattern.toList ++ (between ++ (mnemonic.toList ++ after))) ++ remark)
        (some (pattern, mnemonic))

/-- The texts that lay out rows, line by line and in order. Each line ends with a newline, or with a carriage return and
    a newline, but the last may do without. -/
inductive LaidOut : List Char → List (String × String) → Prop
  | nil : LaidOut [] []
  | last {line : List Char} {row : Option (String × String)} (written : Written line row) (filled : line ≠ []) :
      LaidOut line row.toList
  | line {line ending rest : List Char} {row : Option (String × String)} {rows : List (String × String)}
      (written : Written line row) (ended : ending = ['\n'] ∨ ending = ['\r', '\n']) (more : LaidOut rest rows) :
      LaidOut (line ++ (ending ++ rest)) (row.toList ++ rows)

/-- The parts of a row that a table can hold. -/
def Writable (row : String × String) : Prop :=
  Pattern.WellFormed row.1.toList ∧ Plain row.2.toList

instance (text : List Char) : Decidable (Pattern.WellFormed text) :=
  decidable_of_iff (text.length = 4 ∧ (text.all fun c => "0123456789ABCDEFNXY".toList.contains c) = true)
    (by simp only [Pattern.WellFormed, List.all_eq_true, List.contains_iff_mem])

instance (mnemonic : List Char) : Decidable (Plain mnemonic) :=
  decidable_of_iff (mnemonic ≠ [] ∧ (mnemonic.all fun c => !Text.isBlank c && c != ';') = true) (by simp [Plain])

instance (row : String × String) : Decidable (Writable row) :=
  inferInstanceAs (Decidable (_ ∧ _))

theorem not_semicolon_of_blank {c : Char} (blank : Text.isBlank c = true) : c ≠ ';' := by
  rintro rfl
  exact absurd blank (by decide)

theorem Gap.bare {gap : List Char} (h : Gap gap) : ';' ∉ gap := fun hc => not_semicolon_of_blank (h _ hc).1 rfl

theorem Gap.blank {gap : List Char} (h : Gap gap) : ∀ c ∈ gap, Text.isBlank c = true := fun c hc => (h c hc).1

theorem Remark.head {remark : List Char} (h : Remark remark) : ∀ c ∈ remark.head?, c = ';' := by
  rcases h with rfl | ⟨words, rfl, -⟩
  · exact nofun
  · intro c hc
    exact (Option.some.inj hc).symm

theorem Remark.whole {remark : List Char} (h : Remark remark) : '\n' ∉ remark := by
  rcases h with rfl | ⟨words, rfl, whole⟩
  · exact List.not_mem_nil
  · exact List.not_mem_cons_of_ne_of_not_mem (by decide) whole

theorem Gap.whole {gap : List Char} (h : Gap gap) : '\n' ∉ gap := fun hc => (h _ hc).2 rfl

end Table

namespace Pattern

/-- The characters of patterns are neither white space nor semicolons. -/
theorem WellFormed.plain {text : List Char} (h : WellFormed text) : Table.Plain text := by
  have plain : ∀ cell ∈ Cell.all, Text.isBlank cell.char = false ∧ cell.char ≠ ';' := by decide +kernel
  obtain ⟨cells, four, rfl⟩ := wellFormed_iff.mp h
  refine ⟨?_, fun c hc => ?_⟩
  · rw [← List.length_pos_iff, List.length_map, four]
    exact Nat.succ_pos 3
  · obtain ⟨cell, -, rfl⟩ := List.mem_map.mp hc
    exact plain cell cell.mem_all

end Pattern

namespace Table

theorem Plain.bare {text : List Char} (h : Plain text) : ';' ∉ text := fun hc => (h.2 _ hc).2 rfl

theorem Plain.solid {text : List Char} (h : Plain text) : ∀ c ∈ text, Text.isBlank c = false := fun c hc => (h.2 c hc).1

theorem Plain.whole {text : List Char} (h : Plain text) : '\n' ∉ text := fun hc => absurd (h.2 _ hc).1 (by decide)

theorem Gap.head_append {gap : List Char} (h : Gap gap) (apart : gap ≠ []) (rest : List Char) :
    ∀ c ∈ (gap ++ rest).head?, Text.isBlank c = true := by
  intro c hc
  rw [List.head?_append_of_ne_nil _ apart] at hc
  exact h.blank c (List.mem_of_mem_head? hc)

/-- A row is read from however it is written. -/
theorem Written.reads {line : List Char} {row : Option (String × String)} (h : Written line row)
    (writable : ∀ parts ∈ row, Writable parts) : ∃ read, Reads line read ∧ read.map Pattern.parts = row := by
  cases h with
  | idle blank remarked =>
    have fielded : Text.Fielded _ [] := List.append_nil _ ▸ Text.Fielded.gap blank.blank .nil
    exact ⟨none, .skipped ⟨_, _, rfl, blank.bare, remarked.head, fielded⟩, rfl⟩
  | @row before between after remark pattern mnemonic opening parting apart closing remarked =>
    obtain ⟨wellFormed, plain⟩ := writable _ rfl
    obtain ⟨p, built⟩ := Pattern.exists_ofText? wellFormed mnemonic
    obtain ⟨text, named⟩ := Pattern.ofText?_eq_ok_iff.mp built
    have tail : Text.Fielded (mnemonic.toList ++ after) [mnemonic.toList] := by
      refine .field plain.1 plain.solid ?_ (List.append_nil after ▸ Text.Fielded.gap closing.blank .nil)
      exact fun c hc => closing.blank c (List.mem_of_mem_head? hc)
    have fielded : Text.Fielded (before ++ (pattern.toList ++ (between ++ (mnemonic.toList ++ after))))
        [pattern.toList, mnemonic.toList] :=
      .gap opening.blank (.field wellFormed.plain.1 wellFormed.plain.solid (parting.head_append apart _)
        (.gap parting.blank tail))
    have bare : ';' ∉ before ++ (pattern.toList ++ (between ++ (mnemonic.toList ++ after))) := by
      simp only [List.mem_append, not_or]
      exact ⟨opening.bare, wellFormed.plain.bare, parting.bare, plain.bare, closing.bare⟩
    refine ⟨some p, .row ⟨_, _, rfl, bare, remarked.head, fielded⟩ wellFormed ?_, ?_⟩
    · rwa [String.ofList_toList, String.ofList_toList]
    · rw [Option.map_some, Pattern.parts, text, named]

theorem Written.whole {line : List Char} {row : Option (String × String)} (h : Written line row)
    (writable : ∀ parts ∈ row, Writable parts) : '\n' ∉ line := by
  cases h with
  | idle blank remarked =>
    simp only [List.mem_append, not_or]
    exact ⟨blank.whole, remarked.whole⟩
  | row opening parting _ closing remarked =>
    obtain ⟨wellFormed, plain⟩ := writable _ rfl
    simp only [List.mem_append, not_or]
    exact ⟨⟨opening.whole, wellFormed.plain.whole, parting.whole, plain.whole, closing.whole⟩, remarked.whole⟩

/-! ### Carriage returns -/

/-- A carriage return at the end of a line is white space or part of a comment, so it does not matter to the fields. -/
theorem fields_code_concat_return (line : List Char) :
    Text.fields (code (line ++ ['\r'])) = Text.fields (code line) := by
  rw [code, code, List.takeWhile_append]
  split
  · rename_i all
    have blank : Text.isBlank '\r' = true := by decide
    have whole : line.takeWhile (fun c => c ≠ ';') = line := (List.takeWhile_prefix _).eq_of_length all
    have kept : ['\r'].takeWhile (fun c => decide (c ≠ ';')) = ['\r'] := by decide
    rw [kept, Text.fields_append_blank blank, Text.fields_nil, List.append_nil, whole]
  · rfl

theorem fields_code_dropReturn (line : List Char) :
    Text.fields (code (Text.dropReturn line)) = Text.fields (code line) := by
  by_cases h : line.getLast? = some '\r'
  · obtain ⟨line, rfl⟩ := List.getLast?_eq_some_iff.mp h
    rw [Text.dropReturn_concat, fields_code_concat_return]
  · rw [Text.dropReturn_of_bare h]

theorem Reads.congr {line other : List Char} {row : Option Pattern} (h : Reads line row)
    (same : Text.fields (code other) = Text.fields (code line)) : Reads other row := by
  cases h with
  | skipped held => exact .skipped (holds_iff.mpr (same.trans (holds_iff.mp held)))
  | row held wellFormed built => exact .row (holds_iff.mpr (same.trans (holds_iff.mp held))) wellFormed built

/-! ### Tables -/

/-- However rows are laid out, just these rows are read. -/
theorem LaidOut.reads {text : List Char} {rows : List (String × String)} (h : LaidOut text rows)
    (writable : ∀ row ∈ rows, Writable row) :
    ∃ read, List.Forall₂ Reads (Text.lines text) read ∧ read.reduceOption.map Pattern.parts = rows := by
  induction h with
  | nil => exact ⟨[], .nil, rfl⟩
  | @last line row written filled =>
    obtain ⟨read, reads, parts⟩ := written.reads fun parts hp => writable parts (Option.mem_toList.mpr hp)
    have whole := written.whole fun parts hp => writable parts (Option.mem_toList.mpr hp)
    rw [Text.lines_of_whole whole filled]
    refine ⟨[read], .cons reads .nil, ?_⟩
    obtain rfl := parts
    cases read <;> rfl
  | @line line ending rest row rows written ended more ih =>
    have first : ∀ parts ∈ row, Writable parts := fun parts hp =>
      writable parts (List.mem_append_left _ (Option.mem_toList.mpr hp))
    obtain ⟨read, reads, parts⟩ := written.reads first
    obtain ⟨others, all, rest_parts⟩ := ih fun row hr => writable row (List.mem_append_right _ hr)
    have whole := written.whole first
    refine ⟨read :: others, ?_, ?_⟩
    -- A plain newline may end a line whose last character is a carriage return, which is then dropped from the line.
    · rcases ended with rfl | rfl
      · rw [List.singleton_append, Text.lines_ended whole]
        exact .cons (reads.congr (fields_code_dropReturn line)) all
      · rw [List.cons_append, List.singleton_append, Text.lines_ended_return whole]
        exact .cons reads all
    · obtain rfl := parts
      obtain rfl := rest_parts
      cases read <;> rfl

theorem LaidOut.parse? {text : String} {rows : List (String × String)} (h : LaidOut text.toList rows)
    (writable : ∀ row ∈ rows, Writable row) : ∃ ps, parse? text = .ok ps ∧ ps.map Pattern.parts = rows := by
  obtain ⟨read, all, parts⟩ := h.reads writable
  exact ⟨_, readLines_eq_ok_iff.mpr ⟨read, all, rfl⟩, parts⟩

/-! ### What was read -/

theorem plain_of_holds {line : List Char} {fields : List (List Char)} (h : Holds line fields) :
    ∀ f ∈ fields, Plain f := by
  obtain ⟨code, comment, -, bare, -, fielded⟩ := h
  intro f hf
  obtain ⟨filled, solid⟩ := fielded.mem f hf
  refine ⟨filled, fun c hc => ⟨(solid c hc).1, ?_⟩⟩
  rintro rfl
  exact bare (solid _ hc).2

theorem Reads.writable {line : List Char} {p : Pattern} (h : Reads line (some p)) : Writable p.parts := by
  cases h with
  | @row pattern mnemonic _ held wellFormed built =>
    obtain ⟨-, named⟩ := Pattern.ofText?_eq_ok_iff.mp built
    have plain : Plain mnemonic := plain_of_holds held _ (List.mem_cons_of_mem _ List.mem_cons_self)
    refine ⟨p.wellFormed_text, ?_⟩
    rwa [Pattern.parts, named, String.toList_ofList]

theorem writable_of_reads {lines : List (List Char)} {read : List (Option Pattern)}
    (all : List.Forall₂ Reads lines read) : ∀ p ∈ read.reduceOption, Writable p.parts := by
  simp only [List.reduceOption_mem_iff]
  induction all with
  | nil => exact nofun
  | cons reads _ ih =>
    intro p hp
    rcases List.mem_cons.mp hp with rfl | hp
    · exact reads.writable
    · exact ih p hp

/-- Every row that was read can be written. -/
theorem writable_of_parse? {text : String} {ps : List Pattern} (h : Table.parse? text = .ok ps) :
    ∀ p ∈ ps, Writable p.parts := by
  obtain ⟨read, all, rfl⟩ := readLines_eq_ok_iff.mp h
  exact writable_of_reads all

/-! ### Printing -/

theorem toList_print_cons (p : Pattern) (ps : List Pattern) :
    (print (p :: ps)).toList = p.text.toList ++ (' ' :: (p.mnemonic.toList ++ '\n' :: (print ps).toList)) := by
  simp only [print, List.map_cons, String.toList_join, List.flatMap_cons]
  simp [toString]

theorem laidOut_print (ps : List Pattern) : LaidOut (print ps).toList (ps.map Pattern.parts) := by
  induction ps with
  | nil => exact .nil
  | cons p ps ih =>
    have none : Gap [] := List.forall_mem_nil _
    have space : Gap [' '] := List.forall_mem_singleton.mpr (by decide)
    have written : Written (p.text.toList ++ ' ' :: p.mnemonic.toList) (some p.parts) := by
      have row := @Written.row [] [' '] [] [] p.text p.mnemonic none space (List.cons_ne_nil _ _) none (.inl rfl)
      simpa [Pattern.parts] using row
    simpa [toList_print_cons] using LaidOut.line written (.inl rfl) ih

/-- What is printed is read again, if it can be written. -/
theorem parse?_print {ps : List Pattern} (writable : ∀ p ∈ ps, Writable p.parts) :
    Table.parse? (print ps) = .ok ps := by
  obtain ⟨qs, read, parts⟩ := (laidOut_print ps).parse? (List.forall_mem_map.mpr writable)
  rw [read, List.map_injective_iff.mpr Pattern.parts_injective parts]

/-- However rows are laid out they are what is read, and whatever is read can be printed and read again. -/
theorem parse_inverts_layout :
    (∀ (text : String) (rows : List (String × String)), (∀ row ∈ rows, Writable row) → LaidOut text.toList rows →
      ∃ ps, Table.parse? text = .ok ps ∧ ps.map Pattern.parts = rows) ∧
    ∀ (text : String) (ps : List Pattern), Table.parse? text = .ok ps →
      (∀ p ∈ ps, p.mnemonic ≠ "" ∧ ∀ c ∈ p.mnemonic.toList, Text.isBlank c = false ∧ c ≠ ';') ∧
      Table.parse? (print ps) = .ok ps := by
  refine ⟨fun text rows writable laid => laid.parse? writable, fun text ps h => ?_⟩
  have writable := writable_of_parse? h
  refine ⟨fun p hp => ?_, parse?_print writable⟩
  obtain ⟨-, filled, solid⟩ := writable p hp
  exact ⟨fun none => filled (String.toList_eq_nil_iff.mpr none), solid⟩

/-- A table with a comment above, a gap that is no plain space, and a last line that does not end. -/
def decorated : String :=
  "; registers\n \r\n\t6XNN\u3000SETR\x0c; V0;\r\n00E0 CLEAR"

theorem laidOut_decorated : LaidOut decorated.toList [("6XNN", "SETR"), ("00E0", "CLEAR")] := by
  have space : Gap [' '] := List.forall_mem_singleton.mpr (by decide)
  have tab : Gap ['\t'] := List.forall_mem_singleton.mpr (by decide)
  have wide : Gap ['\u3000'] := List.forall_mem_singleton.mpr (by decide)
  have feed : Gap ['\x0c'] := List.forall_mem_singleton.mpr (by decide)
  have none : Gap [] := List.forall_mem_nil _
  have heading : Remark "; registers".toList := .inr ⟨" registers".toList, by decide +kernel, by decide +kernel⟩
  have remark : Remark "; V0;".toList := .inr ⟨" V0;".toList, by decide +kernel, by decide +kernel⟩
  have last : LaidOut _ [("00E0", "CLEAR")] :=
    .last (.row none space (List.cons_ne_nil _ _) none (.inl rfl)) (by decide +kernel)
  have register : Written _ (some ("6XNN", "SETR")) := .row tab wide (List.cons_ne_nil _ _) feed remark
  have laid : LaidOut _ [("6XNN", "SETR"), ("00E0", "CLEAR")] := .line (.idle none heading) (.inl rfl)
    (.line (.idle space (.inl rfl)) (.inr rfl) (.line register (.inr rfl) last))
  convert laid using 1
  decide +kernel

theorem parse_inverts_layout_decorated :
    ∃ ps, Table.parse? decorated = .ok ps ∧ ps.map Pattern.parts = [("6XNN", "SETR"), ("00E0", "CLEAR")] ∧
      Table.parse? (print ps) = .ok ps := by
  have writable : ∀ row ∈ [("6XNN", "SETR"), ("00E0", "CLEAR")], Writable row := by decide +kernel
  obtain ⟨read, printed⟩ := parse_inverts_layout
  obtain ⟨ps, h, parts⟩ := read decorated _ writable laidOut_decorated
  exact ⟨ps, h, parts, (printed _ _ h).2⟩

end Table

end Chip8Disasm
