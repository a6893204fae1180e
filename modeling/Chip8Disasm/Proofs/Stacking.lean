import Chip8Disasm.Proofs.Parsing

/-! Tables below each other. A newline between two texts makes one table of two: their rows follow each other, the first
    error decides, and the lines of the lower table are counted on from those of the upper. How lines are ended, and
    whether the last one is ended at all, does not matter. -/

namespace Chip8Disasm

namespace Text

/-! ### Lines of texts below each other -/

/-- The lines of a text and of what stands below it. Where the upper text does not end within a line the newline that
    parts the two makes an empty one. -/
theorem lines_stacked {upper : List Char} (bare : upper.getLast? ≠ some '\r') :
    ∃ idle, (idle = [] ∨ idle = [[]]) ∧ (lines upper ++ idle).length = upper.count '\n' + 1 ∧
      ∀ lower, lines (upper ++ '\n' :: lower) = lines upper ++ idle ++ lines lower := by
  induction upper using piece_induction with
  | last piece whole =>
    have single : ∀ lower, lines (piece ++ '\n' :: lower) = piece :: lines lower := fun lower => by
      rw [lines_ended whole, dropReturn_of_bare bare]
    rcases eq_or_ne piece [] with rfl | filled
    · exact ⟨[[]], .inr rfl, rfl, single⟩
    · refine ⟨[], .inl rfl, ?_, fun lower => ?_⟩
      · simp [lines_of_whole whole filled, List.count_eq_zero.mpr whole]
      · simp [lines_of_whole whole filled, single]
  | ended piece rest whole ih =>
    have bare' : rest.getLast? ≠ some '\r' := by
      rcases eq_or_ne rest [] with rfl | filled
      · exact nofun
      · rwa [List.append_cons, List.getLast?_append_of_ne_nil _ filled] at bare
    obtain ⟨idle, empty, count, split⟩ := ih bare'
    refine ⟨idle, empty, ?_, fun lower => ?_⟩
    · simp [lines_ended whole, List.count_eq_zero.mpr whole, ← count]
    · simp [lines_ended whole, split]

/-! ### Line ends -/

/-- A text with a carriage return put in front of each newline. -/
def returned (text : List Char) : List Char :=
  text.flatMap fun c => if c = '\n' then ['\r', '\n'] else [c]

theorem returned_of_whole {line : List Char} (whole : '\n' ∉ line) : returned line = line := by
  induction line with
  | nil => rfl
  | cons c line ih =>
    obtain ⟨first, rest⟩ := not_or.mp (mt List.mem_cons.mpr whole)
    have kept := ih rest
    unfold returned at kept ⊢
    simp [Ne.symm first, kept]

theorem returned_ended {line : List Char} (whole : '\n' ∉ line) (rest : List Char) :
    returned (line ++ '\n' :: rest) = line ++ '\r' :: '\n' :: returned rest := by
  have first := returned_of_whole whole
  unfold returned at first ⊢
  simp [first]

theorem lines_returned {text : List Char} (bare : '\r' ∉ text) : lines (returned text) = lines text := by
  induction text using piece_induction with
  | last piece whole => rw [returned_of_whole whole]
  | ended piece rest whole ih =>
    rw [List.mem_append, List.mem_cons] at bare
    have last : piece.getLast? ≠ some '\r' := fun h => bare (.inl (List.mem_of_getLast? h))
    rw [returned_ended whole, lines_ended_return whole, lines_ended whole, dropReturn_of_bare last,
      ih fun h => bare (.inr (.inr h))]

end Text

/-! ### Reading on -/

/-- What is reported when a number of lines come before those that the error counts. -/
def TableError.below (before : Nat) : TableError → TableError
  | .badLine number line => .badLine (number + before) line
  | e => e

namespace Table

theorem readLine_below (number before : Nat) (line : List Char) :
    readLine (number + before) line = (readLine number line).mapError (·.below before) := by
  unfold readLine
  split
  · rfl
  · rename_i pattern mnemonic _
    cases built : Pattern.ofText? (String.ofList pattern) (String.ofList mnemonic) with
    | ok p => rfl
    | error e =>
      obtain ⟨-, rfl⟩ := Pattern.ofText?_eq_error_iff.mp built
      rfl
  · rfl

theorem readLines_below (number before : Nat) (lines : List (List Char)) :
    readLines (number + before) lines = (readLines number lines).mapError (·.below before) := by
  induction lines generalizing number with
  | nil => rfl
  | cons line lines ih =>
    rw [readLines, readLines, readLine_below, Nat.add_right_comm, ih]
    cases readLine number line with
    | error e => rfl
    | ok row => cases readLines (number + 1) lines <;> rfl

theorem readLines_append (number : Nat) (upper lower : List (List Char)) :
    readLines number (upper ++ lower) = do
      let ps ← readLines number upper
      let qs ← readLines (number + upper.length) lower
      return ps ++ qs := by
  induction upper generalizing number with
  | nil =>
    rw [List.nil_append, List.length_nil, Nat.add_zero]
    cases readLines number lower <;> rfl
  | cons line upper ih =>
    have count : number + 1 + upper.length = number + (line :: upper).length := by
      rw [List.length_cons]
      omega
    rw [List.cons_append, readLines, readLines, ih, count]
    cases readLine number line with
    | error e => rfl
    | ok row =>
      cases readLines (number + 1) upper with
      | error e => rfl
      | ok ps =>
        cases readLines (number + (line :: upper).length) lower with
        | error e => rfl
        | ok qs => exact congrArg Except.ok (List.append_assoc _ _ _).symm

theorem readLines_idle {number : Nat} {idle : List (List Char)} (h : idle = [] ∨ idle = [[]]) :
    readLines number idle = .ok [] := by
  rcases h with rfl | rfl <;> rfl

theorem parse?_stacked {upper : String} (bare : upper.toList.getLast? ≠ some '\r') (lower : String) :
    parse? (upper ++ "\n" ++ lower) = do
      let ps ← parse? upper
      let qs ← (parse? lower).mapError (·.below (upper.toList.count '\n' + 1))
      return ps ++ qs := by
  obtain ⟨idle, empty, count, split⟩ := Text.lines_stacked bare
  have joined : (upper ++ "\n" ++ lower).toList = upper.toList ++ '\n' :: lower.toList := by simp
  have read : readLines 1 (Text.lines upper.toList ++ idle) = parse? upper := by
    rw [readLines_append, readLines_idle empty, parse?]
    cases readLines 1 (Text.lines upper.toList) with
    | error e => rfl
    | ok ps => exact congrArg Except.ok (List.append_nil ps)
  rw [parse?, joined, split, readLines_append, read, count, readLines_below, ← parse?]

/-- What can be wrong with a text. -/
theorem eq_of_parse?_error {text : String} {e : TableError} (h : parse? text = .error e) :
    (∃ number line, e = .badLine number line) ∨ ∃ pattern, e = .badPattern pattern := by
  obtain ⟨_, _, _, -, -, fails⟩ := readLines_eq_error_iff.mp h
  cases fails with
  | fields => exact .inl ⟨_, _, rfl⟩
  | pattern => exact .inr ⟨_, rfl⟩

/-! ### Tables below each other -/

/-- A text with an error stays wrong in the same way whatever stands below it. Below a text without an error another
    text adds its rows, or its own error, with the line counted from the top of both. -/
theorem parse_stacked_tables (upper lower : String) (bare : upper.toList.getLast? ≠ some '\r') :
    (∀ e, parse? upper = .error e → parse? (upper ++ "\n" ++ lower) = .error e) ∧
    (∀ ps qs, parse? upper = .ok ps → parse? lower = .ok qs → parse? (upper ++ "\n" ++ lower) = .ok (ps ++ qs)) ∧
    (∀ ps number line, parse? upper = .ok ps → parse? lower = .error (.badLine number line) →
      parse? (upper ++ "\n" ++ lower) = .error (.badLine (number + (upper.toList.count '\n' + 1)) line)) ∧
    (∀ ps pattern, parse? upper = .ok ps → parse? lower = .error (.badPattern pattern) →
      parse? (upper ++ "\n" ++ lower) = .error (.badPattern pattern)) ∧
    ∀ e, parse? lower = .error e → (∃ number line, e = .badLine number line) ∨ ∃ pattern, e = .badPattern pattern := by
  rw [parse?_stacked bare]
  refine ⟨fun e above => ?_, fun ps qs above below => ?_, fun ps number line above below => ?_,
    fun ps pattern above below => ?_, fun e => eq_of_parse?_error⟩
  · rw [above]
    rfl
  · rw [above, below]
    rfl
  · rw [above, below]
    rfl
  · rw [above, below]
    rfl

theorem parse_stacked_tables_ended :
    parse? ("6XN SETR" ++ "\n" ++ "7XNN ; add") = .error (.badPattern "6XN") ∧
    parse? ("6XNN SETR\n; numbers\n" ++ "\n" ++ "00E0 CLEAR") = .ok
      [⟨[.digit 6, .operand .x, .operand .n, .operand .n], "SETR", rfl⟩,
        ⟨[.digit 0, .digit 0, .digit 14, .digit 0], "CLEAR", rfl⟩] ∧
    parse? ("6XNN SETR\n; numbers\n" ++ "\n" ++ "\n7XNN ; add") = .error (.badLine 5 "7XNN ; add") ∧
    parse? ("6XNN SETR\n; numbers\n" ++ "\n" ++ "7XN ADDI") = .error (.badPattern "7XN") := by
  obtain ⟨broken, -⟩ := parse_stacked_tables "6XN SETR" "7XNN ; add" (by decide)
  have bare : "6XNN SETR\n; numbers\n".toList.getLast? ≠ some '\r' := by decide
  have above : parse? "6XNN SETR\n; numbers\n" =
      .ok [⟨[.digit 6, .operand .x, .operand .n, .operand .n], "SETR", rfl⟩] := by decide +kernel
  refine ⟨broken _ (by decide +kernel), ?_, ?_, ?_⟩
  · exact (parse_stacked_tables _ "00E0 CLEAR" bare).2.1 _ [⟨[.digit 0, .digit 0, .digit 14, .digit 0], "CLEAR", rfl⟩] above
      (by decide +kernel)
  · exact (parse_stacked_tables _ "\n7XNN ; add" bare).2.2.1 _ 2 _ above (by decide +kernel)
  · exact (parse_stacked_tables _ "7XN ADDI" bare).2.2.2.1 _ _ above (by decide +kernel)

/-- A table is read alike whether its lines end with newlines or with carriage returns and newlines, and whether or not
    its last line is ended. -/
theorem parse_any_line_ends :
    (∀ text : String, '\r' ∉ text.toList → parse? (String.ofList (Text.returned text.toList)) = parse? text) ∧
    ∀ text : String, text.toList.getLast? ≠ some '\r' → parse? (text ++ "\n") = parse? text := by
  refine ⟨fun text bare => ?_, fun text bare => ?_⟩
  · rw [parse?, String.toList_ofList, Text.lines_returned bare, ← parse?]
  · have ended := parse?_stacked bare ""
    have none : parse? "" = .ok [] := rfl
    rw [String.append_empty, none] at ended
    rw [ended]
    cases parse? text with
    | error e => rfl
    | ok ps => exact congrArg Except.ok (List.append_nil ps)

theorem parse_any_line_ends_stray :
    parse? "\r\n6XNN SETR\r\n7XNN ; add\r\n" = .error (.badLine 3 "7XNN ; add") ∧
    parse? ("6XNN\rSETR\r " ++ "\n") = parse? "6XNN\rSETR\r " := by
  obtain ⟨returned, ended⟩ := parse_any_line_ends
  have bad : parse? "\n6XNN SETR\n7XNN ; add\n" = .error (.badLine 3 "7XNN ; add") := by decide +kernel
  have text : String.ofList (Text.returned "\n6XNN SETR\n7XNN ; add\n".toList) =
      "\r\n6XNN SETR\r\n7XNN ; add\r\n" := by decide +kernel
  have same := returned "\n6XNN SETR\n7XNN ; add\n" (by decide)
  rw [text, bad] at same
  exact ⟨same, ended "6XNN\rSETR\r " (by decide)⟩

end Table

end Chip8Disasm
