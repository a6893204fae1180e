import Chip8Disasm.Proofs.Delivering
import Chip8Disasm.Proofs.Shadowing

/-! What a run reports. The records of a run depend on the files and on the stage that it comes to, and the verbosity only
    chooses among them, so the runs of a request at each verbosity differ in nothing but the records shown. -/

namespace Chip8Disasm

/-! ### Records of a verbosity -/

namespace Command

/-- The records that the loudest run shows. -/
def audible (log : List Record) : List Record :=
  log.filter fun rec => rec.level ≠ .trace

theorem audible_append (log log' : List Record) : audible (log ++ log') = audible log ++ audible log' :=
  List.filter_append ..

theorem level_of_mem_audible {log : List Record} {rec : Record} (h : rec ∈ audible log) :
    rec.level = .debug ∨ rec.level = .warn := by
  have loud := of_decide_eq_true (List.mem_filter.mp h).2
  cases rec <;> first | exact .inl rfl | exact .inr rfl | exact absurd rfl loud

/-- A logger shows the records from the level on that is asked for. -/
def Logger.Leveled (logger : Logger) : Prop :=
  ∀ threshold level, logger.passes threshold level = true ↔ threshold.rank ≤ level.rank

namespace Logger.Leveled
variable {logger : Logger} (leveled : logger.Leveled)
include leveled

theorem shown_debug (log : List Record) : logger.shown .debug log = logger.lines (audible log) := by
  have same : ∀ rec : Record, logger.passes .debug rec.level = decide (rec.level ≠ .trace) := by
    intro rec
    rw [Bool.eq_iff_iff, leveled, decide_eq_true_iff]
    cases rec <;> simp [Record.level, Level.rank]
  simp only [shown, audible, same]

theorem shown_warn (log : List Record) :
    logger.shown .warn log = logger.lines ((audible log).filter fun rec => rec.level = .warn) := by
  have same : ∀ rec : Record, logger.passes .warn rec.level =
      (decide (rec.level = .warn) && decide (rec.level ≠ .trace)) := by
    intro rec
    rw [Bool.eq_iff_iff, leveled, Bool.and_eq_true, decide_eq_true_iff, decide_eq_true_iff]
    cases rec <;> simp [Record.level, Level.rank]
  simp only [shown, audible, List.filter_filter, same]

theorem shown_error (log : List Record) : logger.shown .error log = "" := by
  have none : ∀ rec : Record, logger.passes .error rec.level = false := by
    intro rec
    rw [← Bool.not_eq_true, leveled]
    cases rec <;> simp [Record.level, Level.rank]
  simp only [shown, none, List.filter_false]
  rfl

end Logger.Leveled

end Command

/-! ### Records of a stage -/

namespace Decoder

/-- What is reported of a table that compiles, before the first word is read. -/
def announced (policy : Policy) (ps : List Pattern) (d : Decoder) : List Record :=
  shadowings policy ps ++ [.compiled ps.length d.shapes.length, .decoding d.shapes]

/-- What is reported of words: each that no pattern fits. -/
def unmatched (d : Decoder) (ws : List Word) : List Record :=
  (ws.filter fun w => d.decode? w = none).map .unmatched

theorem audible_announced (policy : Policy) (ps : List Pattern) (d : Decoder) :
    Command.audible (announced policy ps d) = announced policy ps d := by
  refine List.filter_eq_self.mpr fun rec hrec => decide_eq_true ?_
  rcases List.mem_append.mp hrec with h | h
  · rw [level_of_mem_shadowings h]
    exact nofun
  · rcases List.mem_pair.mp h with rfl | rfl <;> exact nofun

theorem audible_trail (d : Decoder) (ws : List Word) (k : Nat) :
    Command.audible (Listing.trail d ws k) = d.unmatched ws := by
  induction ws generalizing k with
  | nil => rfl
  | cons w ws ih =>
    have first : Command.audible (.read (2 * k) w :: (d.decode w).log) = d.unmatched [w] := by
      rw [← Listing.trailOf_eq, Listing.trailOf, unmatched]
      by_cases unknown : d.decode? w = none <;> simp [unknown, Command.audible, Record.level]
    rw [Listing.trail_cons, Command.audible_append, ih, first, unmatched, unmatched, unmatched, ← List.map_append,
      ← List.filter_append, List.singleton_append]

end Decoder

namespace Command
variable {σ φ : Type} {r : Request} {fs : FileSystem σ φ} {d : σ} {stdin : Source} {ps : List Pattern}
  {decoder : Decoder}

theorem log_prepare_of_ok (rows : r.Rows (fs.Reads d) ps) (compiled : (Decoder.compile r.policy ps).value = .ok decoder) :
    (prepare r.policy (r.patterns.map fun path => (path, fs.load path d))).log = decoder.announced r.policy ps := by
  have given := Request.rows_eq_ok_iff.mpr rows
  have passed : ((Decoder.compile r.policy ps).map fun result => result.mapError Failure.compileTable).value =
      .ok decoder := mapError_eq_ok_iff.mpr compiled
  rw [prepare, Traced.log_andThen_of_ok given, Traced.log_andThen_of_ok passed, Traced.map,
    Decoder.log_compile_of_ok compiled, Decoder.announced, List.nil_append, List.append_assoc]
  rfl

/-- Nothing is reported of a table that is refused, whatever the reason. -/
theorem log_prepare_of_error {f : Failure}
    (h : (prepare r.policy (r.patterns.map fun path => (path, fs.load path d))).value = .error f) :
    (prepare r.policy (r.patterns.map fun path => (path, fs.load path d))).log = [] := by
  rw [prepare] at h ⊢
  rcases Traced.value_andThen_eq_error.mp h with unread | ⟨qs, given, refused⟩
  · rw [Traced.log_andThen_of_error unread]
  · rw [Traced.log_andThen_of_ok given]
    rcases Traced.value_andThen_eq_error.mp refused with refused | ⟨_, -, ends⟩
    · obtain ⟨e, he, -⟩ := mapError_eq_error_iff.mp refused
      rw [Traced.log_andThen_of_error refused, Traced.map, Decoder.log_compile_of_error he]
      rfl
    · cases ends

theorem audible_list {path : String} (s : Source) (decoder : Decoder) :
    audible (list path (.ok s) decoder).log = decoder.unmatched (Word.ofStream s.stream) := by
  have read : (list path (.ok s) decoder).log = (Listing.ofSource decoder s).log := rfl
  rw [read, Listing.ofSource_eq, Decoder.audible_trail]

/-- Once the table is there, what is reported of it comes first. -/
theorem audible_listed (rows : r.Rows (fs.Reads d) ps) (compiled : (Decoder.compile r.policy ps).value = .ok decoder) :
    audible (listed fs r d stdin).log = decoder.announced r.policy ps ++
      audible (list r.file (if r.file = "-" then .ok stdin else fs.source r.file d) decoder).log := by
  rw [listed, Traced.log_andThen_of_ok (value_prepare_eq_ok_iff.mpr ⟨ps, rows, compiled⟩),
    log_prepare_of_ok rows compiled, audible_append, Decoder.audible_announced]

theorem audible_listed_of_opens {s : Source} (rows : r.Rows (fs.Reads d) ps)
    (compiled : (Decoder.compile r.policy ps).value = .ok decoder) (opens : r.Opens fs d stdin s) :
    audible (listed fs r d stdin).log =
      decoder.announced r.policy ps ++ decoder.unmatched (Word.ofStream s.stream) := by
  rw [audible_listed rows compiled, Request.opened_eq_ok_iff.mpr opens, audible_list]

/-- What is reported up to a stage, by its place among the stages. -/
inductive Request.Reports (r : Request) (fs : FileSystem σ φ) (d : σ) (stdin : Source) : Nat → List Record → Prop
  | table {place : Nat} (early : place < 3) : Reports r fs d stdin place []
  | opening {ps : List Pattern} {decoder : Decoder} (rows : r.Rows (fs.Reads d) ps)
      (compiled : (Decoder.compile r.policy ps).value = .ok decoder) :
      Reports r fs d stdin 3 (decoder.announced r.policy ps)
  | words {place : Nat} {ps : List Pattern} {decoder : Decoder} {s : Source} (late : 3 < place)
      (rows : r.Rows (fs.Reads d) ps) (compiled : (Decoder.compile r.policy ps).value = .ok decoder)
      (opens : r.Opens fs d stdin s) :
      Reports r fs d stdin place (decoder.announced r.policy ps ++ decoder.unmatched (Word.ofStream s.stream))

theorem reports_of_unlisted {f : Failure} (h : (listed fs r d stdin).value = .error f) :
    r.Reports fs d stdin f.stage (audible (listed fs r d stdin).log) := by
  have ended := h
  rw [listed, Traced.value_andThen_eq_error] at ended
  rcases ended with refused | ⟨decoder, prepared, ended⟩
  · have early : f.stage < 3 := by
      rcases (@value_prepare_eq_error_iff _ _ r fs d stdin f).mp refused with ⟨-, early⟩ | ⟨-, -, -, -, rfl⟩
      · exact Nat.lt_of_le_of_lt early (by decide)
      · exact Nat.lt_succ_self 2
    rw [listed, Traced.log_andThen_of_error refused, log_prepare_of_error refused]
    exact .table early
  · obtain ⟨ps, rows, compiled⟩ := value_prepare_eq_ok_iff.mp prepared
    rw [value_list_eq_error_iff] at ended
    simp only [Request.opened_eq_ok_iff] at ended
    rcases ended with ⟨e, closed, rfl⟩ | ⟨s, opens, e, -, rfl⟩
    · rw [audible_listed rows compiled, closed]
      exact (List.append_nil (decoder.announced r.policy ps)).symm ▸ .opening rows compiled
    · rw [audible_listed_of_opens rows compiled opens]
      exact .words (Nat.lt_succ_self 3) rows compiled opens

/-- A run that fails reports what comes before the stage that fails. To deliver the listing adds nothing. -/
theorem reports_of_error {f : Failure} {after : σ} (h : (perform fs r d stdin).value = (.error f, after)) :
    r.Reports fs d stdin f.stage (audible (perform fs r d stdin).log) := by
  rcases value_perform_eq_error_iff.mp h with ⟨unlisted, -⟩ | ⟨listing, whole, undelivered⟩
  · exact reports_of_unlisted unlisted
  · obtain ⟨ps, decoder, s, is, rows, compiled, opens, -⟩ := value_listed_eq_ok_iff.mp whole
    obtain ⟨path, e, -, -, rfl, -⟩ := deliver_eq_error undelivered
    have log : audible (perform fs r d stdin).log = _ := audible_listed_of_opens rows compiled opens
    rw [log]
    exact .words (by decide : 3 < 5) rows compiled opens

/-! ### Runs of one request at each verbosity -/

/-- The runs of a request as it is and with each of the two options for another verbosity differ in the records that
    they show: the verbose run shows every record of debugging and every warning, the plain run the warnings and the
    quiet run none. Then comes the report of the first failure, if there is one. -/
theorem verbosity_chooses_records {p : Platform σ φ} {args loud silent : List String} (leveled : p.logger.Leveled)
    (accepted : p.parse args = .ok r) (plain : r.verbose = false ∧ r.quiet = false)
    (louder : p.parse loud = .ok { r with verbose := true }) (quieter : p.parse silent = .ok { r with quiet := true })
    (d : σ) (stdin : Source) :
    ∃ log tail, log = (perform p.files r d stdin).log.filter (fun rec => rec.level ≠ .trace) ∧
      (∀ rec ∈ log, rec.level = .debug ∨ rec.level = .warn) ∧
      (p.run args d stdin).stderr = p.logger.lines (log.filter fun rec => rec.level = .warn) ++ tail ∧
      p.run loud d stdin = { p.run args d stdin with stderr := p.logger.lines log ++ tail } ∧
      p.run silent d stdin = { p.run args d stdin with stderr := tail } ∧
      ((p.run args d stdin).exit = 0 → tail = "" ∧ ∃ ps decoder s, r.Rows (p.files.Reads d) ps ∧
        (Decoder.compile r.policy ps).value = .ok decoder ∧ r.Opens p.files d stdin s ∧
        log = Decoder.shadowings r.policy ps ++ [.compiled ps.length decoder.shapes.length, .decoding decoder.shapes] ++
          ((Word.ofStream s.stream).filter fun w => decoder.decode? w = none).map .unmatched) ∧
      ((p.run args d stdin).exit ≠ 0 → ∃ f, r.FirstFailure p.files d stdin f ∧ tail = p.report f ∧
        r.Reports p.files d stdin f.stage log) := by
  -- Nothing is done in another way for a verbosity.
  have same_loud : perform p.files { r with verbose := true } d stdin = perform p.files r d stdin := rfl
  have same_silent : perform p.files { r with quiet := true } d stdin = perform p.files r d stdin := rfl
  have warns : r.threshold = .warn := by
    rw [Request.threshold, plain.1, plain.2]
    rfl
  have hushes : ({ r with quiet := true } : Request).threshold = .error := by
    rw [Request.threshold, plain.1]
    rfl
  have debugs : ({ r with verbose := true } : Request).threshold = .debug := rfl
  rw [run_of_accepted accepted, run_of_accepted louder, run_of_accepted quieter, same_loud, same_silent, warns, hushes,
    debugs]
  rcases h : (perform p.files r d stdin).value with ⟨f | printed, after⟩
  · simp only [conclude_of_error h, leveled.shown_debug, leveled.shown_warn, leveled.shown_error]
    exact ⟨audible (perform p.files r d stdin).log, p.report f, rfl, fun rec => level_of_mem_audible, rfl, rfl,
      by rw [String.empty_append], nofun, fun _ => ⟨f, (firstFailure_of_perform h).1, rfl, reports_of_error h⟩⟩
  · simp only [conclude_of_ok h, leveled.shown_debug, leveled.shown_warn, leveled.shown_error]
    refine ⟨audible (perform p.files r d stdin).log, "", rfl, fun rec => level_of_mem_audible, ?_, ?_, rfl,
      fun _ => ⟨rfl, ?_⟩, fun failed => absurd rfl failed⟩
    · rw [String.append_empty]
    · rw [String.append_empty]
    · obtain ⟨listing, whole, -⟩ := value_perform_eq_ok_iff.mp h
      obtain ⟨ps, decoder, s, is, rows, compiled, opens, -⟩ := value_listed_eq_ok_iff.mp whole
      exact ⟨ps, decoder, s, rows, compiled, opens, audible_listed_of_opens rows compiled opens⟩

/-- One row with two mnemonics. -/
def doubled : List Pattern :=
  [.row 0 0 0xE 0 "CLEAR", .row 0 0 0xE 0 "CLS"]

/-- The table of these rows, and a program with a word that is not in it. -/
def doubting : Directory :=
  ⟨[("table", "00E0 CLEAR\n00E0 CLS\n".toUTF8.toList), ("rom", [0x00, 0xE0, 0xFF, 0xFF])]⟩

/-- The shadowed row and the unknown word are the warnings of a run that succeeds. -/
theorem verbosity_chooses_records_doubled :
    (run ["disassemble", "chip8", "rom", "--shadowing", "-p", "table"] doubting []).stderr =
      "WARN  [c8dasm::dasm::chip8::decoder] pattern 00E0 (CLS) shadows 00E0 (CLEAR)\n" ++
      "WARN  [c8dasm::dasm::chip8::decoder] could not match instruction RawInstruction<0xFFFF>, " ++
      "mapping to UNKNOWN 0xFFFF\n" ∧
    (run ["-v", "disassemble", "chip8", "rom", "--shadowing", "-p", "table"] doubting []).stdout =
      (run ["disassemble", "chip8", "rom", "--shadowing", "-p", "table"] doubting []).stdout ∧
    (run ["disassemble", "chip8", "rom", "--shadowing", "--quiet", "-p", "table"] doubting []).stderr = "" := by
  have leveled : program.logger.Leveled := fun _ _ => decide_eq_true_iff
  have accepted : program.parse ["disassemble", "chip8", "rom", "--shadowing", "-p", "table"] =
      .ok ⟨"rom", none, some "table", true, false, false⟩ := rfl
  have louder : program.parse ["-v", "disassemble", "chip8", "rom", "--shadowing", "-p", "table"] =
      .ok ⟨"rom", none, some "table", true, true, false⟩ := rfl
  have quieter : program.parse ["disassemble", "chip8", "rom", "--shadowing", "--quiet", "-p", "table"] =
      .ok ⟨"rom", none, some "table", true, false, true⟩ := rfl
  have read : Directory.system.Reads doubting "table" "00E0 CLEAR\n00E0 CLS\n".toUTF8.toList :=
    Directory.reads_iff.mpr ⟨"table", by decide +kernel, rfl⟩
  have way : doubting.locate "rom" = .file "rom" := by decide +kernel
  have rows : Request.Rows ⟨"rom", none, some "table", true, false, false⟩ (Directory.system.Reads doubting) doubled :=
    .held rfl read rfl
  have opens : Request.Opens ⟨"rom", none, some "table", true, false, false⟩ Directory.system doubting (.ofBytes [])
      (.ofBytes [0x00, 0xE0, 0xFF, 0xFF]) :=
    .file (by decide) (Directory.source_eq_ok_iff.mpr (.inl ⟨"rom", _, way, rfl, rfl⟩))
  have compiled := Decoder.value_compile_lastWins doubled
  have found := value_listed_eq_ok_iff.mpr
    ⟨_, _, _, _, rows, compiled, opens, Listing.value_ofSource_of_even _ rfl, rfl⟩
  have succeeds : (run ["disassemble", "chip8", "rom", "--shadowing", "-p", "table"] doubting []).exit = 0 :=
    exit_of_perform accepted (value_perform_eq_ok_iff.mpr ⟨_, found, rfl⟩)
  obtain ⟨log, tail, -, -, shown, same, hushed, succeeded, -⟩ :=
    verbosity_chooses_records leveled accepted ⟨rfl, rfl⟩ louder quieter doubting (.ofBytes [])
  obtain ⟨rfl, ps, decoder, s, rows', compiled', opens', rfl⟩ := succeeded succeeds
  obtain rfl := rows'.unique rows
  obtain rfl := Except.ok.inj (compiled'.symm.trans compiled)
  obtain rfl := opens'.unique opens
  refine ⟨?_, (congrArg Outcome.stdout same :), (congrArg Outcome.stderr hushed :)⟩
  rw [Source.stream_ofBytes] at shown
  exact shown.trans (by decide +kernel)

end Command

end Chip8Disasm
