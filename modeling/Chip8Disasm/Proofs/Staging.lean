import Chip8Disasm.Command.Stages
import Chip8Disasm.Proofs.Compiling
import Chip8Disasm.Proofs.Filing
import Chip8Disasm.Proofs.Listings

/-! The stages of a run. What can fail is said of each stage for itself, by what the request and the files are. A run
    succeeds exactly if no stage fails, and otherwise comes to the failure of the first stage that does. -/

namespace Chip8Disasm

/-! ### Texts in files -/

theorem toList_loop_eq (bytes : ByteArray) (i : Nat) (read : List UInt8) :
    ByteArray.toList.loop bytes i read = read.reverse ++ bytes.data.toList.drop i := by
  fun_induction ByteArray.toList.loop bytes i read with
  | case1 i read h ih =>
    have hi : i < bytes.data.toList.length := h
    have head : bytes.get! i = bytes.data.toList[i] := getElem!_pos bytes.data i h
    rw [ih, List.drop_eq_getElem_cons hi, List.reverse_cons, List.append_assoc, head]
    rfl
  | case2 i read h =>
    have hi : bytes.data.toList.length ≤ i := Nat.le_of_not_lt h
    rw [List.drop_eq_nil_of_le hi, List.append_nil]

theorem toList_eq_data (bytes : ByteArray) : bytes.toList = bytes.data.toList :=
  toList_loop_eq bytes 0 []

/-- Bytes are a text exactly if they are the text's code. -/
theorem fromUTF8?_eq_some_iff {bytes : List UInt8} {text : String} :
    String.fromUTF8? ⟨bytes.toArray⟩ = some text ↔ bytes = text.toUTF8.toList := by
  unfold String.fromUTF8?
  rw [toList_eq_data]
  constructor
  · intro h
    split at h
    · cases h
      rfl
    · cases h
  · rintro rfl
    have valid : ByteArray.IsValidUTF8 ⟨text.toUTF8.data.toList.toArray⟩ := text.isValidUTF8
    rw [dif_pos valid]
    rfl

/-! ### Errors in other words -/

section
variable {α ε ε' : Type} {result : Except ε α} {f : ε → ε'}

theorem mapError_eq_ok_iff {a : α} : result.mapError f = .ok a ↔ result = .ok a := by
  cases result <;> simp [Except.mapError]

theorem mapError_eq_error_iff {e : ε'} : result.mapError f = .error e ↔ ∃ e', result = .error e' ∧ f e' = e := by
  cases result <;> simp [Except.mapError]

end

namespace Command

variable {σ φ : Type}

/-! ### What a request asks for -/

namespace Request

/-- The rows of the table that a request asks for, by what is held at a path. -/
inductive Rows (r : Request) (holds : String → List UInt8 → Prop) : List Pattern → Prop
  | shipped (unasked : r.patterns = none) : Rows r holds Pattern.shipped
  | held {path text : String} {ps : List Pattern} (asked : r.patterns = some path)
      (read : holds path text.toUTF8.toList) (parsed : Table.parse? text = .ok ps) : Rows r holds ps

/-- The source of the program that a request asks for, once it is open. -/
inductive Opens (r : Request) (fs : FileSystem σ φ) (d : σ) (stdin : Source) : Source → Prop
  | stdin (dash : r.file = "-") : Opens r fs d stdin stdin
  | file {s : Source} (named : r.file ≠ "-") (opened : fs.source r.file d = .ok s) : Opens r fs d stdin s

/-- When a stage fails, and how. Nothing is said of the stages before except what this stage needs of them. -/
def Fails (r : Request) (fs : FileSystem σ φ) (d : σ) (stdin : Source) : Failure → Prop
  | .readTable path (.file e) => r.patterns = some path ∧ fs.load path d = .error e
  | .readTable path .notText =>
    r.patterns = some path ∧ ∃ bytes, fs.Reads d path bytes ∧ ∀ text : String, bytes ≠ text.toUTF8.toList
  | .parseTable path e =>
    r.patterns = some path ∧ ∃ text : String, fs.Reads d path text.toUTF8.toList ∧ Table.parse? text = .error e
  | .compileTable e => ∃ ps, r.Rows (fs.Reads d) ps ∧ (Decoder.compile r.policy ps).value = .error e
  | .openProgram path e => path = r.file ∧ r.file ≠ "-" ∧ fs.source r.file d = .error e
  | .readProgram path e =>
    path = r.file ∧ ∃ s, r.Opens fs d stdin s ∧ ∃ k, (Reader.ofSource s).answer k = .failed e
  | .createListing path e => r.out = some path ∧ fs.create path d = .error e

end Request

/-- The place of the stage that failed among the stages. -/
def Failure.stage : Failure → Nat
  | .readTable .. => 0
  | .parseTable .. => 1
  | .compileTable .. => 2
  | .openProgram .. => 3
  | .readProgram .. => 4
  | .createListing .. => 5

namespace Request
variable {r : Request} {fs : FileSystem σ φ} {d : σ} {stdin : Source} {f : Failure}

/-! ### The table -/

theorem rows_eq_ok_iff {ps : List Pattern} :
    rows (r.patterns.map fun path => (path, fs.load path d)) = .ok ps ↔ r.Rows (fs.Reads d) ps := by
  constructor
  · intro h
    cases asked : r.patterns with
    | none =>
      rw [asked] at h
      cases h
      exact .shipped asked
    | some path =>
      rw [asked, Option.map_some] at h
      cases read : fs.load path d with
      | error e => rw [read] at h; cases h
      | ok bytes =>
        rw [read, rows] at h
        split at h
        · cases h
        · rename_i text held
          obtain rfl := fromUTF8?_eq_some_iff.mp held
          cases parsed : Table.parse? text with
          | error e => rw [parsed] at h; cases h
          | ok qs =>
            rw [parsed] at h
            cases h
            exact .held asked read parsed
  · intro h
    cases h with
    | shipped unasked => rw [unasked]; rfl
    | held asked read parsed =>
      rw [asked, Option.map_some, read, rows, fromUTF8?_eq_some_iff.mpr rfl]
      dsimp only
      rw [parsed]
      rfl

/-- The first two stages are those that give the rows. -/
theorem rows_eq_error_iff :
    rows (r.patterns.map fun path => (path, fs.load path d)) = .error f ↔ r.Fails fs d stdin f ∧ f.stage ≤ 1 := by
  constructor
  · intro h
    cases asked : r.patterns with
    | none => rw [asked] at h; cases h
    | some path =>
      rw [asked, Option.map_some] at h
      cases read : fs.load path d with
      | error e =>
        rw [read] at h
        cases h
        exact ⟨⟨asked, read⟩, Nat.zero_le 1⟩
      | ok bytes =>
        rw [read, rows] at h
        split at h
        · rename_i binary
          cases h
          refine ⟨⟨asked, bytes, read, fun text held => ?_⟩, Nat.zero_le 1⟩
          rw [fromUTF8?_eq_some_iff.mpr held] at binary
          cases binary
        · rename_i text held
          obtain rfl := fromUTF8?_eq_some_iff.mp held
          cases parsed : Table.parse? text with
          | ok ps => rw [parsed] at h; cases h
          | error e =>
            rw [parsed] at h
            cases h
            exact ⟨⟨asked, text, read, parsed⟩, Nat.le_refl 1⟩
  · rintro ⟨hf, early⟩
    cases f with
    | readTable path e =>
      cases e with
      | file e =>
        obtain ⟨asked, unread⟩ := hf
        rw [asked, Option.map_some, unread]
        rfl
      | notText =>
        obtain ⟨asked, bytes, read, binary⟩ := hf
        have none : String.fromUTF8? ⟨bytes.toArray⟩ = none :=
          Option.eq_none_iff_forall_ne_some.mpr fun text held => binary text (fromUTF8?_eq_some_iff.mp held)
        rw [asked, Option.map_some, read, rows, none]
    | parseTable path e =>
      obtain ⟨asked, text, read, bad⟩ := hf
      rw [asked, Option.map_some, read, rows, fromUTF8?_eq_some_iff.mpr rfl]
      dsimp only
      rw [bad]
      rfl
    | compileTable | openProgram | readProgram | createListing => exact absurd early (by simp [Failure.stage])

theorem Rows.unique {ps qs : List Pattern} (hp : r.Rows (fs.Reads d) ps) (hq : r.Rows (fs.Reads d) qs) : ps = qs :=
  Except.ok.inj ((rows_eq_ok_iff.mpr hp).symm.trans (rows_eq_ok_iff.mpr hq))

/-! ### The program -/

theorem opened_eq_ok_iff {s : Source} :
    (if r.file = "-" then .ok stdin else fs.source r.file d) = .ok s ↔ r.Opens fs d stdin s := by
  constructor
  · intro h
    split at h
    · rename_i dash
      cases h
      exact .stdin dash
    · rename_i named
      exact .file named h
  · intro h
    cases h with
    | stdin dash => rw [if_pos dash]
    | file named opened => rw [if_neg named, opened]

theorem opened_eq_error_iff {e : FileError} :
    (if r.file = "-" then .ok stdin else fs.source r.file d) = .error e ↔
      r.file ≠ "-" ∧ fs.source r.file d = .error e := by
  by_cases dash : r.file = "-" <;> simp [dash]

theorem Opens.unique {s t : Source} (hs : r.Opens fs d stdin s) (ht : r.Opens fs d stdin t) : s = t :=
  Except.ok.inj ((opened_eq_ok_iff.mpr hs).symm.trans (opened_eq_ok_iff.mpr ht))

end Request

/-! ### The listing -/

theorem Reader.exists_answer_failed_iff {s : Source} {e : StreamError} :
    (∃ k, (Reader.ofSource s).answer k = .failed e) ↔ Reader.lastWord s = .failed e := by
  constructor
  · rintro ⟨k, h⟩
    rcases Nat.lt_trichotomy k (s.stream.length / 2) with early | rfl | late
    · obtain ⟨r', hnext, -⟩ := (Reader.behind_after s (Nat.le_of_lt early)).next_word (by omega)
      rw [Reader.answer, hnext] at h
      cases h
    · rwa [Reader.answer_last] at h
    · rw [Reader.answer, Reader.next_of_stopped (Reader.stopped_after s late).1] at h
      cases h
  · intro h
    exact ⟨_, (Reader.answer_last s).trans h⟩

/-- Whether there is a listing depends on the source only, as every word is decoded. -/
theorem value_ofSource_eq_error_iff {decoder : Decoder} {s : Source} {e : StreamError} :
    (Listing.ofSource decoder s).value = .error e ↔ ∃ k, (Reader.ofSource s).answer k = .failed e := by
  rw [Reader.exists_answer_failed_iff, Listing.ofSource_eq]
  cases h : Reader.lastWord s with
  | word w => exact absurd h (Reader.lastWord_ne_word s w)
  | ended => simp [Listing.outcome]
  | failed e' => simp [Listing.outcome]

theorem value_ofSource_eq_ok {decoder : Decoder} {s : Source} {is : List Instruction}
    (h : (Listing.ofSource decoder s).value = .ok is) :
    is = (Word.ofStream s.stream).map fun w => (decoder.decode w).value := by
  rw [Listing.ofSource_eq] at h
  cases hl : Reader.lastWord s with
  | word w => exact absurd hl (Reader.lastWord_ne_word s w)
  | ended => rw [hl] at h; exact (Except.ok.inj h).symm
  | failed e => rw [hl] at h; cases h

/-! ### The run -/

section
variable {r : Request} {fs : FileSystem σ φ} {d : σ} {stdin : Source} {f : Failure}

theorem value_prepare_eq_ok_iff {decoder : Decoder} :
    (prepare r.policy (r.patterns.map fun path => (path, fs.load path d))).value = .ok decoder ↔
      ∃ ps, r.Rows (fs.Reads d) ps ∧ (Decoder.compile r.policy ps).value = .ok decoder := by
  rw [prepare, Traced.value_andThen_eq_ok]
  refine exists_congr fun ps => and_congr Request.rows_eq_ok_iff ?_
  simp [Traced.value_andThen_eq_ok, Traced.map, mapError_eq_ok_iff]

theorem value_prepare_eq_error_iff :
    (prepare r.policy (r.patterns.map fun path => (path, fs.load path d))).value = .error f ↔
      r.Fails fs d stdin f ∧ f.stage ≤ 1 ∨
        ∃ ps, r.Rows (fs.Reads d) ps ∧ ∃ e, (Decoder.compile r.policy ps).value = .error e ∧ .compileTable e = f := by
  rw [prepare, Traced.value_andThen_eq_error]
  refine or_congr Request.rows_eq_error_iff (exists_congr fun ps => and_congr Request.rows_eq_ok_iff ?_)
  simp [Traced.value_andThen_eq_error, Traced.map, mapError_eq_error_iff]

theorem value_list_eq_ok_iff {path : String} {opened : Except FileError Source} {decoder : Decoder} {listing : String} :
    (list path opened decoder).value = .ok listing ↔
      ∃ s, opened = .ok s ∧ ∃ is, (Listing.ofSource decoder s).value = .ok is ∧ Listing.print is = listing := by
  rw [list, Traced.value_andThen_eq_ok]
  refine exists_congr fun s => and_congr mapError_eq_ok_iff ?_
  rw [Traced.map, mapError_eq_ok_iff]
  cases (Listing.ofSource decoder s).value <;> simp [Except.map]

theorem value_list_eq_error_iff {path : String} {opened : Except FileError Source} {decoder : Decoder} :
    (list path opened decoder).value = .error f ↔
      (∃ e, opened = .error e ∧ .openProgram path e = f) ∨
        ∃ s, opened = .ok s ∧ ∃ e, (Listing.ofSource decoder s).value = .error e ∧ .readProgram path e = f := by
  rw [list, Traced.value_andThen_eq_error]
  refine or_congr mapError_eq_error_iff (exists_congr fun s => and_congr mapError_eq_ok_iff ?_)
  rw [Traced.map, mapError_eq_error_iff]
  cases (Listing.ofSource decoder s).value <;> simp [Except.map]

theorem value_listed_eq_ok_iff {listing : String} :
    (listed fs r d stdin).value = .ok listing ↔ ∃ ps decoder s is, r.Rows (fs.Reads d) ps ∧
      (Decoder.compile r.policy ps).value = .ok decoder ∧ r.Opens fs d stdin s ∧
      (Listing.ofSource decoder s).value = .ok is ∧ Listing.print is = listing := by
  rw [listed, Traced.value_andThen_eq_ok]
  simp only [value_prepare_eq_ok_iff, value_list_eq_ok_iff, Request.opened_eq_ok_iff]
  constructor
  · rintro ⟨decoder, ⟨ps, rows, compiled⟩, s, opens, is, listed, rfl⟩
    exact ⟨ps, decoder, s, is, rows, compiled, opens, listed, rfl⟩
  · rintro ⟨ps, decoder, s, is, rows, compiled, opens, listed, rfl⟩
    exact ⟨decoder, ⟨ps, rows, compiled⟩, s, opens, is, listed, rfl⟩

/-- A failure before there is a listing changes no file. -/
theorem value_perform_of_unlisted (h : (listed fs r d stdin).value = .error f) :
    (perform fs r d stdin).value = (.error f, d) := by
  rw [perform, Traced.map, h]

theorem value_perform_of_listed {listing : String} (h : (listed fs r d stdin).value = .ok listing) :
    (perform fs r d stdin).value = deliver fs r.out listing d := by
  rw [perform, Traced.map, h]

theorem value_perform_eq_ok_iff {printed : String} {after : σ} :
    (perform fs r d stdin).value = (.ok printed, after) ↔
      ∃ listing, (listed fs r d stdin).value = .ok listing ∧ deliver fs r.out listing d = (.ok printed, after) := by
  cases h : (listed fs r d stdin).value with
  | error f => simp [value_perform_of_unlisted h]
  | ok listing => simp [value_perform_of_listed h]

theorem value_perform_eq_error_iff {after : σ} : (perform fs r d stdin).value = (.error f, after) ↔
    (listed fs r d stdin).value = .error f ∧ after = d ∨
      ∃ listing, (listed fs r d stdin).value = .ok listing ∧ deliver fs r.out listing d = (.error f, after) := by
  cases h : (listed fs r d stdin).value with
  | error g => simp [value_perform_of_unlisted h, eq_comm]
  | ok listing => simp [value_perform_of_listed h]

end

end Command

end Chip8Disasm
