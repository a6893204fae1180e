import Chip8Disasm.Command.Run
import Chip8Disasm.Proofs.Staging

/-! Runs that fail. A stage that was passed cannot fail, so a run ends with the failure of the first stage that does,
    whatever is wrong in later ones, and it leaves nothing behind but the report of that failure. -/

namespace Chip8Disasm.Command

variable {σ φ : Type}

namespace Request
variable {r : Request} {fs : FileSystem σ φ} {d : σ} {stdin : Source} {f g : Failure}

/-! ### Stages that were passed -/

/-- No stage before the one with a given place fails. -/
def Passes (r : Request) (fs : FileSystem σ φ) (d : σ) (stdin : Source) (place : Nat) : Prop :=
  ∀ f, r.Fails fs d stdin f → place ≤ f.stage

theorem Passes.next {place : Nat} (passes : r.Passes fs d stdin place)
    (here : ∀ f, r.Fails fs d stdin f → f.stage ≠ place) : r.Passes fs d stdin (place + 1) := by
  intro f hf
  exact Nat.lt_of_le_of_ne (passes f hf) (Ne.symm (here f hf))

theorem Rows.passes {ps : List Pattern} (rows : r.Rows (fs.Reads d) ps) : r.Passes fs d stdin 2 := by
  intro f hf
  by_contra early
  have failed := rows_eq_error_iff.mpr ⟨hf, Nat.le_of_lt_succ (Nat.lt_of_not_le early)⟩
  rw [rows_eq_ok_iff.mpr rows] at failed
  cases failed

section
variable {ps : List Pattern} {decoder : Decoder} {s : Source} {is : List Instruction}
variable (rows : r.Rows (fs.Reads d) ps) (compiled : (Decoder.compile r.policy ps).value = .ok decoder)
include rows compiled

theorem passes_compile : r.Passes fs d stdin 3 := by
  refine rows.passes.next fun f hf here => ?_
  cases f with
  | compileTable e =>
    obtain ⟨qs, rows', refused⟩ := hf
    rw [rows'.unique rows, compiled] at refused
    cases refused
  | _ => cases here

variable (opens : r.Opens fs d stdin s)
include opens

theorem passes_open : r.Passes fs d stdin 4 := by
  refine (passes_compile rows compiled).next fun f hf here => ?_
  cases f with
  | openProgram path e =>
    obtain ⟨-, named, closed⟩ := hf
    cases opens with
    | stdin dash => exact absurd dash named
    | file _ opened =>
      rw [opened] at closed
      cases closed
  | _ => cases here

variable (listed : (Listing.ofSource decoder s).value = .ok is)
include listed

theorem passes_list : r.Passes fs d stdin 5 := by
  refine (passes_open rows compiled opens).next fun f hf here => ?_
  cases f with
  | readProgram path e =>
    obtain ⟨-, s', opens', failed⟩ := hf
    rw [opens'.unique opens] at failed
    rw [value_ofSource_eq_error_iff.mpr failed] at listed
    cases listed
  | _ => cases here

theorem passes_deliver {printed : String} {after : σ}
    (delivered : deliver fs r.out (Listing.print is) d = (.ok printed, after)) : r.Passes fs d stdin 6 := by
  refine (passes_list rows compiled opens listed).next fun f hf here => ?_
  cases f with
  | createListing path e =>
    obtain ⟨asked, shut⟩ := hf
    rw [asked, deliver, shut] at delivered
    cases delivered
  | _ => cases here

end

/-! ### The first failure -/

/-- The failure of the first stage that fails. -/
def FirstFailure (r : Request) (fs : FileSystem σ φ) (d : σ) (stdin : Source) (f : Failure) : Prop :=
  r.Fails fs d stdin f ∧ r.Passes fs d stdin f.stage

/-- A stage fails in one way. -/
theorem Fails.unique (hf : r.Fails fs d stdin f) (hg : r.Fails fs d stdin g) (same : f.stage = g.stage) : f = g := by
  -- The first two stages are one function of the request, whose result is one failure; each later stage has its own.
  by_cases early : f.stage ≤ 1
  · have failed := rows_eq_error_iff.mpr ⟨hf, early⟩
    rw [rows_eq_error_iff.mpr ⟨hg, same ▸ early⟩] at failed
    exact (Except.error.inj failed).symm
  · cases f with
    | readTable => exact absurd (Nat.zero_le 1) early
    | parseTable => exact absurd (Nat.le_refl 1) early
    | compileTable e =>
      cases g with
      | compileTable e' =>
        obtain ⟨ps, rows, refused⟩ := hf
        obtain ⟨qs, rows', refused'⟩ := hg
        rw [rows.unique rows', refused'] at refused
        rw [Except.error.inj refused]
      | _ => cases same
    | openProgram path e =>
      cases g with
      | openProgram path' e' =>
        obtain ⟨rfl, _, closed⟩ := hf
        obtain ⟨rfl, _, closed'⟩ := hg
        rw [closed'] at closed
        rw [Except.error.inj closed]
      | _ => cases same
    | readProgram path e =>
      cases g with
      | readProgram path' e' =>
        obtain ⟨rfl, s, opens, failed⟩ := hf
        obtain ⟨rfl, s', opens', failed'⟩ := hg
        rw [opens.unique opens', Reader.exists_answer_failed_iff, Reader.exists_answer_failed_iff.mp failed'] at failed
        rw [Reading.failed.inj failed]
      | _ => cases same
    | createListing path e =>
      cases g with
      | createListing path' e' =>
        obtain ⟨asked, shut⟩ := hf
        obtain ⟨asked', shut'⟩ := hg
        obtain rfl := Option.some.inj (asked.symm.trans asked')
        rw [Except.error.inj (shut.symm.trans shut')]
      | _ => cases same

/-- Of the two stages that give the rows only one can fail. -/
theorem Fails.passes_of_early (hf : r.Fails fs d stdin f) (early : f.stage ≤ 1) : r.Passes fs d stdin f.stage := by
  intro g hg
  by_contra earlier
  have failed := rows_eq_error_iff.mpr ⟨hf, early⟩
  rw [rows_eq_error_iff.mpr ⟨hg, by omega⟩] at failed
  exact earlier (Except.error.inj failed ▸ Nat.le_refl _)

end Request

section
variable {r : Request} {fs : FileSystem σ φ} {d after : σ} {stdin : Source} {f : Failure}

/-- A file that cannot be created is the one thing that stops a listing, and then nothing is changed. -/
theorem deliver_eq_error {out : Option String} {listing : String} (h : deliver fs out listing d = (.error f, after)) :
    ∃ path e, out = some path ∧ fs.create path d = .error e ∧ f = .createListing path e ∧ after = d := by
  cases out with
  | none => cases h
  | some path =>
    rw [deliver] at h
    cases created : fs.create path d with
    | ok made => rw [created] at h; cases h
    | error e =>
      rw [created] at h
      cases h
      exact ⟨path, e, rfl, created, rfl, rfl⟩

theorem firstFailure_of_listed (h : (listed fs r d stdin).value = .error f) : r.FirstFailure fs d stdin f := by
  rw [listed, Traced.value_andThen_eq_error, @value_prepare_eq_error_iff _ _ r fs d stdin] at h
  rcases h with (⟨hf, early⟩ | ⟨ps, rows, e, refused, rfl⟩) | ⟨decoder, prepared, h⟩
  · exact ⟨hf, hf.passes_of_early early⟩
  · exact ⟨⟨ps, rows, refused⟩, rows.passes⟩
  · obtain ⟨ps, rows, compiled⟩ := value_prepare_eq_ok_iff.mp prepared
    rw [value_list_eq_error_iff] at h
    simp only [Request.opened_eq_ok_iff, Request.opened_eq_error_iff] at h
    rcases h with ⟨e, closed, rfl⟩ | ⟨s, opens, e, failed, rfl⟩
    · exact ⟨⟨rfl, closed⟩, Request.passes_compile rows compiled⟩
    · exact ⟨⟨rfl, s, opens, value_ofSource_eq_error_iff.mp failed⟩, Request.passes_open rows compiled opens⟩

/-- A run that fails comes to the failure of the first stage that does, with the files as they were. -/
theorem firstFailure_of_perform (h : (perform fs r d stdin).value = (.error f, after)) :
    r.FirstFailure fs d stdin f ∧ after = d := by
  rcases value_perform_eq_error_iff.mp h with ⟨unlisted, rfl⟩ | ⟨listing, whole, undelivered⟩
  · exact ⟨firstFailure_of_listed unlisted, rfl⟩
  · obtain ⟨ps, decoder, s, is, rows, compiled, opens, listed, rfl⟩ := value_listed_eq_ok_iff.mp whole
    obtain ⟨path, e, asked, shut, rfl, rfl⟩ := deliver_eq_error undelivered
    exact ⟨⟨⟨asked, shut⟩, Request.passes_list rows compiled opens listed⟩, rfl⟩

theorem not_fails_of_perform {printed : String} (h : (perform fs r d stdin).value = (.ok printed, after)) :
    ¬r.Fails fs d stdin f := by
  obtain ⟨listing, whole, delivered⟩ := value_perform_eq_ok_iff.mp h
  obtain ⟨ps, decoder, s, is, rows, compiled, opens, listed, rfl⟩ := value_listed_eq_ok_iff.mp whole
  intro hf
  have passed := Request.passes_deliver rows compiled opens listed delivered f hf
  cases f <;> exact absurd passed (by simp [Failure.stage])

/-- No more than one failure is the first. -/
theorem Request.FirstFailure.unique {g : Failure} (hf : r.FirstFailure fs d stdin f)
    (hg : r.FirstFailure fs d stdin g) : f = g :=
  hf.1.unique hg.1 (Nat.le_antisymm (hf.2 g hg.1) (hg.2 f hf.1))

end

/-! ### What is left of a run -/

section
variable {p : Platform σ φ} {threshold : Level} {performed : Traced (Except Failure String × σ)} {after : σ}

theorem conclude_of_ok {printed : String} (h : performed.value = (.ok printed, after)) :
    p.conclude threshold performed = ⟨0, printed, p.logger.shown threshold performed.log, after⟩ := by
  obtain ⟨_, log⟩ := performed
  obtain rfl := h
  rfl

theorem conclude_of_error {f : Failure} (h : performed.value = (.error f, after)) :
    p.conclude threshold performed =
      ⟨1, "", p.logger.shown threshold performed.log ++ p.report f, after⟩ := by
  obtain ⟨_, log⟩ := performed
  obtain rfl := h
  rfl

end

section
variable {p : Platform σ φ} {args : List String} {r : Request} (accepted : p.parse args = .ok r)
variable {d after : σ} {stdin : Source}
include accepted

theorem run_of_accepted : p.run args d stdin = p.conclude r.threshold (perform p.files r d stdin) := by
  rw [Platform.run, accepted]

theorem exit_of_perform {printed : String} (h : (perform p.files r d stdin).value = (.ok printed, after)) :
    (p.run args d stdin).exit = 0 := by
  rw [run_of_accepted accepted, conclude_of_ok h]

/-- A run is known up to its log from what its request comes to. -/
theorem run_congr {args' : List String} {r' : Request} (accepted' : p.parse args' = .ok r')
    (same : (perform p.files r d stdin).value = (perform p.files r' d stdin).value) :
    (p.run args d stdin).exit = (p.run args' d stdin).exit ∧
      (p.run args d stdin).stdout = (p.run args' d stdin).stdout ∧
      (p.run args d stdin).disk = (p.run args' d stdin).disk := by
  rw [run_of_accepted accepted, run_of_accepted accepted']
  rcases h : (perform p.files r' d stdin).value with ⟨f | printed, after⟩
  · rw [conclude_of_error (same.trans h), conclude_of_error h]
    exact ⟨rfl, rfl, rfl⟩
  · rw [conclude_of_ok (same.trans h), conclude_of_ok h]
    exact ⟨rfl, rfl, rfl⟩

/-- A run whose arguments are accepted ends with 1 exactly if a stage fails, and then it prints nothing and changes no
    file, and its last words are the report of the first failure. -/
theorem failing_run_leaves_report (d : σ) (stdin : Source) :
    ((p.run args d stdin).exit = 0 ∨ (p.run args d stdin).exit = 1) ∧
    ((p.run args d stdin).exit = 1 ↔ ∃ f, r.Fails p.files d stdin f) ∧
    ((p.run args d stdin).exit = 1 → (p.run args d stdin).stdout = "" ∧ (p.run args d stdin).disk = d ∧
      ∃ f, r.FirstFailure p.files d stdin f) ∧
    ∀ f, r.FirstFailure p.files d stdin f → (p.run args d stdin).stderr =
      p.logger.shown r.threshold (perform p.files r d stdin).log ++ p.report f := by
  -- What was performed decides between the two ends, and a stage fails exactly if it came to a failure.
  rw [run_of_accepted accepted]
  rcases h : (perform p.files r d stdin).value with ⟨f | printed, after⟩
  · obtain ⟨first, rfl⟩ := firstFailure_of_perform h
    rw [conclude_of_error h]
    exact ⟨.inr rfl, ⟨fun _ => ⟨f, first.1⟩, fun _ => rfl⟩, fun _ => ⟨rfl, rfl, f, first⟩,
      fun g first' => first.unique first' ▸ rfl⟩
  · have none : ¬∃ f, r.Fails p.files d stdin f := fun ⟨_, hf⟩ => not_fails_of_perform h hf
    rw [conclude_of_ok h]
    exact ⟨.inl rfl, ⟨nofun, fun some => absurd some none⟩, nofun, fun f first => absurd ⟨f, first.1⟩ none⟩

end

/-- A table that has a row twice, in a directory without a program. -/
def clashing : Directory :=
  ⟨[("table", "00E0 CLEAR\n00E0 CLS\n".toUTF8.toList), ("notes", [0x2A])]⟩

/-- The collision is reported, although there is no program either and a directory is to take the listing. -/
theorem failing_run_leaves_report_clashing :
    (run ["disassemble", "chip8", "rom", "-o", ".", "-p", "table"] clashing []).exit = 1 ∧
    (run ["disassemble", "chip8", "rom", "-o", ".", "-p", "table"] clashing []).directory = clashing ∧
    ∃ log, (run ["disassemble", "chip8", "rom", "-o", ".", "-p", "table"] clashing []).stderr =
      program.logger.shown .warn log ++ "Error: pattern CLS (00E0) collides with CLEAR (00E0)\n" := by
  have accepted : program.parse ["disassemble", "chip8", "rom", "-o", ".", "-p", "table"] =
      .ok ⟨"rom", some ".", some "table", false, false, false⟩ := rfl
  have read : Directory.system.Reads clashing "table" "00E0 CLEAR\n00E0 CLS\n".toUTF8.toList :=
    Directory.reads_iff.mpr ⟨"table", by decide +kernel, rfl⟩
  have rows : Request.Rows ⟨"rom", some ".", some "table", false, false, false⟩ (Directory.system.Reads clashing) _ :=
    .held rfl read rfl
  have fails : Request.Fails ⟨"rom", some ".", some "table", false, false, false⟩ Directory.system clashing
      (.ofBytes []) (.compileTable (.collision "00E0" "CLEAR" "CLS")) := ⟨_, rows, rfl⟩
  obtain ⟨-, ends, leaves, reports⟩ := failing_run_leaves_report accepted clashing (.ofBytes [])
  have failed := ends.mpr ⟨_, fails⟩
  exact ⟨failed, (leaves failed).2.1, _, reports _ ⟨fails, rows.passes⟩⟩

end Chip8Disasm.Command
