import Chip8Disasm.Proofs.Failing
import Chip8Disasm.Proofs.Legible
import Chip8Disasm.Proofs.Printing

/-! Runs that succeed. The listing has a line for each word of the program as it was when the run started, and it goes
    to one place only, even if that place held the program or the table. -/

namespace Chip8Disasm

/-! ### Texts on one line -/

theorem Hex.newline_not_mem_numeral (letters : Letters) (width n : Nat) : '\n' ∉ (numeral letters width n).toList := by
  have digit : ∀ d < 16, letters.digit d ≠ '\n' := by cases letters <;> decide +kernel
  rw [numeral, String.toList_ofList]
  intro h
  obtain ⟨d, hd, newline⟩ := List.mem_map.mp h
  exact digit d (digits_lt hd) newline

namespace Field

theorem newline_not_mem_text (f : Field) : '\n' ∉ f.text.toList := by
  have behind : ∀ {mark : String} (_ : '\n' ∉ mark.toList) (width n : Nat),
      '\n' ∉ (mark ++ Hex.numeral .upper width n).toList := by
    intro mark hmark width n h
    rw [String.toList_append, List.mem_append] at h
    rcases h with h | h
    · exact hmark h
    · exact Hex.newline_not_mem_numeral _ _ _ h
  unfold text
  cases f.register? with
  | some number => exact behind (by decide) 1 number.toNat
  | none => exact behind (by decide) f.nibbles.length (Nibble.value f.nibbles).toNat

theorem newline_not_mem_spaced (fs : List Field) : '\n' ∉ spaced fs := by
  intro h
  obtain ⟨f, -, hf⟩ := List.mem_flatMap.mp h
  rcases List.mem_cons.mp hf with hf | hf
  · exact absurd hf (by decide)
  · exact f.newline_not_mem_text hf

end Field

/-- Only the mnemonic could break the line of an instruction. -/
theorem Instruction.newline_not_mem_text {i : Instruction} (h : '\n' ∉ i.mnemonic.toList) : '\n' ∉ i.text.toList := by
  cases i with
  | decoded w mnemonic fs =>
    rw [toList_text_decoded]
    exact List.not_mem_append h (Field.newline_not_mem_spaced _)
  | unknown w =>
    rw [toList_text_unknown]
    exact List.not_mem_append h (Field.newline_not_mem_spaced _)

/-! ### Lines of a text -/

section
variable {lines : List (List Char)}

/-- Lines that are ended by newlines and have none inside are found again between the newlines. -/
theorem splitOn_ended (whole : ∀ line ∈ lines, '\n' ∉ line) :
    (lines.flatMap (· ++ ['\n'])).splitOn '\n' = lines ++ [[]] := by
  induction lines with
  | nil => rfl
  | cons line lines ih =>
    obtain ⟨first, rest⟩ := List.forall_mem_cons.mp whole
    have inside : ∀ c ∈ line, (c == '\n') = false := fun c hc => beq_eq_false_iff_ne.mpr fun h => first (h ▸ hc)
    rw [List.flatMap_cons, List.append_assoc, List.singleton_append, List.splitOn_eq_splitOnP,
      List.splitOnP_append_cons_of_forall_mem inside _ (beq_self_eq_true _), ← List.splitOn_eq_splitOnP, ih rest,
      List.cons_append]

theorem count_ended (whole : ∀ line ∈ lines, '\n' ∉ line) :
    (lines.flatMap (· ++ ['\n'])).count '\n' = lines.length := by
  induction lines with
  | nil => rfl
  | cons line lines ih =>
    obtain ⟨first, rest⟩ := List.forall_mem_cons.mp whole
    rw [List.flatMap_cons, List.count_append, List.count_append, List.count_eq_zero.mpr first, ih rest,
      List.count_singleton_self, List.length_cons]
    omega

end

theorem Listing.value_ofSource_of_even (d : Decoder) {bytes : List UInt8} (even : bytes.length % 2 = 0) :
    (ofSource d (.ofBytes bytes)).value = .ok ((Word.ofStream bytes).map fun w => (d.decode w).value) := by
  rw [ofSource_eq, Source.stream_ofBytes]
  exact outcome_of_even (Source.fault?_ofBytes bytes) (by rwa [Source.stream_ofBytes]) _

theorem Listing.toList_print (is : List Instruction) :
    (print is).toList = (is.map fun i => i.text.toList).flatMap (· ++ ['\n']) := by
  simp [print, String.toList_join, List.flatMap_map]

/-- A line of a listing stands on one line if the table's mnemonics do. -/
theorem Decoder.newline_not_mem_text {policy : Policy} {ps : List Pattern} {d : Decoder}
    (compiled : (compile policy ps).value = .ok d) (whole : ∀ p ∈ ps, '\n' ∉ p.mnemonic.toList) (w : Word) :
    '\n' ∉ (d.decode w).value.text.toList := by
  obtain rfl := eq_ofRows_of_compile compiled
  refine Instruction.newline_not_mem_text ?_
  rcases value_decode_ofRows ps w with ⟨p, hp, -, h⟩ | h
  · rw [h]
    exact whole p hp
  · rw [h]
    exact (by decide +kernel : '\n' ∉ "UNKNOWN".toList)

namespace Command

variable {σ φ : Type}

/-- Only a source of whole words that does not fail has a listing. -/
theorem whole_of_value_ofSource {d : Decoder} {s : Source} {is : List Instruction}
    (listed : (Listing.ofSource d s).value = .ok is) : s.fault? = none ∧ s.stream.length % 2 = 0 := by
  by_contra broken
  obtain ⟨e, last⟩ := Listing.exists_lastWord_failed broken
  rw [value_ofSource_eq_error_iff.mpr (Reader.exists_answer_failed_iff.mpr last)] at listed
  cases listed

namespace Request
variable {r : Request} {fs : FileSystem σ φ} {view : View σ φ} {d : σ} {stdin : Source}

/-! ### What is read -/

/-- The program that a request asks for, by what is held at a path. -/
inductive Program (r : Request) (holds : String → List UInt8 → Prop) (stdin : Source) : List UInt8 → Prop
  | stdin (dash : r.file = "-") (whole : stdin.fault? = none) : Program r holds stdin stdin.stream
  | file {bytes : List UInt8} (named : r.file ≠ "-") (held : holds r.file bytes) : Program r holds stdin bytes

theorem Opens.program {s : Source} (sound : view.Describes fs) (opens : r.Opens fs d stdin s)
    (whole : s.fault? = none) : r.Program (view.Holds d) stdin s.stream := by
  cases opens with
  | stdin dash => exact .stdin dash whole
  | file named opened => exact .file named (sound.holds_of_source opened whole)

variable {holds : String → List UInt8 → Prop} {ps : List Pattern}

theorem Rows.mono {holds' : String → List UInt8 → Prop} (rows : r.Rows holds ps)
    (h : ∀ path bytes, holds path bytes → holds' path bytes) : r.Rows holds' ps := by
  cases rows with
  | shipped unasked => exact .shipped unasked
  | held asked read parsed => exact .held asked (h _ _ read) parsed

/-- No table holds a mnemonic that breaks a line. -/
theorem Rows.newline_not_mem (rows : r.Rows holds ps) : ∀ p ∈ ps, '\n' ∉ p.mnemonic.toList := by
  cases rows with
  | shipped => decide +kernel
  | held asked read parsed => exact fun p hp => (Table.writable_of_parse? parsed p hp).2.whole

end Request

/-! ### What is written -/

section
variable {fs : FileSystem σ φ} {d : σ} {path listing : String}

theorem deliver_of_create {opened : σ} {file : φ} (created : fs.create path d = .ok (file, opened)) :
    deliver fs (some path) listing d = (.ok "", fs.write file listing.toUTF8.toList opened) := by
  rw [deliver, created]

/-- A listing that goes to a file is what the file holds afterwards, and no other file changes. -/
theorem deliver_eq_ok {view : View σ φ} {after : σ} {printed : String} (sound : view.Describes fs)
    (h : deliver fs (some path) listing d = (.ok printed, after)) :
    printed = "" ∧ ∃ file, view.resolve path after = some file ∧
      view.content file after = some listing.toUTF8.toList ∧ view.OnlyChanges file d after := by
  cases created : fs.create path d with
  | error e =>
    rw [deliver, created] at h
    cases h
  | ok made =>
    rw [deliver_of_create created] at h
    cases h
    exact ⟨rfl, made.1, sound.write_of_create created listing.toUTF8.toList⟩

end

section
variable {p : Platform σ φ} {view : View σ φ} {args : List String} {r : Request} {d : σ} {stdin : Source}

/-- A run that succeeds writes the listing of the program as it was at the start, a line for each word, to one place and
    nothing to any other. -/
theorem successful_run_writes_listing (sound : view.Describes p.files) (accepted : p.parse args = .ok r)
    (succeeds : (p.run args d stdin).exit = 0) :
    ∃ bytes ps decoder listing, r.Program (view.Holds d) stdin bytes ∧ r.Rows (view.Holds d) ps ∧
      (Decoder.compile r.policy ps).value = .ok decoder ∧
      listing = String.join ((Word.ofStream bytes).map fun w => (decoder.decode w).value.text ++ "\n") ∧
      (r.out = none → (p.run args d stdin).stdout = listing ∧ (p.run args d stdin).disk = d) ∧
      (∀ path, r.out = some path → (p.run args d stdin).stdout = "" ∧
        ∃ file, view.resolve path (p.run args d stdin).disk = some file ∧
          view.content file (p.run args d stdin).disk = some listing.toUTF8.toList ∧
          view.OnlyChanges file d (p.run args d stdin).disk) ∧
      bytes.length % 2 = 0 ∧ listing.toList.count '\n' = bytes.length / 2 ∧
      listing.toList.splitOn '\n' =
        ((Word.ofStream bytes).map fun w => (decoder.decode w).value.text.toList) ++ [[]] := by
  rw [run_of_accepted accepted] at succeeds ⊢
  rcases h : (perform p.files r d stdin).value with ⟨f | printed, after⟩
  · rw [conclude_of_error h] at succeeds
    cases succeeds
  · obtain ⟨listing, found, delivered⟩ := value_perform_eq_ok_iff.mp h
    obtain ⟨ps, decoder, s, is, rows, compiled, opens, listed, rfl⟩ := value_listed_eq_ok_iff.mp found
    obtain ⟨unbroken, even⟩ := whole_of_value_ofSource listed
    obtain rfl := value_ofSource_eq_ok listed
    have lines := Listing.toList_print ((Word.ofStream s.stream).map fun w => (decoder.decode w).value)
    rw [List.map_map] at lines
    have whole : ∀ line ∈ (Word.ofStream s.stream).map fun w => (decoder.decode w).value.text.toList, '\n' ∉ line :=
      List.forall_mem_map.mpr fun w _ => Decoder.newline_not_mem_text compiled rows.newline_not_mem w
    rw [conclude_of_ok h]
    refine ⟨s.stream, ps, decoder, Listing.print ((Word.ofStream s.stream).map fun w => (decoder.decode w).value),
      opens.program sound unbroken, rows.mono fun _ _ => sound.holds_of_reads, compiled, ?_, fun unasked => ?_,
      fun path asked => ?_, even, ?_, ?_⟩
    · rw [Listing.print, List.map_map]
      rfl
    · rw [unasked] at delivered
      cases delivered
      exact ⟨rfl, rfl⟩
    · rw [asked] at delivered
      exact deliver_eq_ok sound delivered
    · rw [lines]
      exact (count_ended whole).trans (by rw [List.length_map, Word.length_ofStream])
    · rw [lines]
      exact splitOn_ended whole

end

def inPlace : Directory :=
  ⟨[("rom", [0x00, 0xE0]), ("notes", [0x2A])]⟩

/-- The file of the program is the place that the listing goes to. -/
theorem successful_run_writes_listing_in_place :
    (run ["disassemble", "chip8", "rom", "--out", "rom"] inPlace []).stdout = "" ∧
    Index.get? "rom" (run ["disassemble", "chip8", "rom", "--out", "rom"] inPlace []).directory.files =
      some "CLEAR\n".toUTF8.toList ∧
    Index.get? "notes" (run ["disassemble", "chip8", "rom", "--out", "rom"] inPlace []).directory.files =
      some [0x2A] := by
  have accepted : program.parse ["disassemble", "chip8", "rom", "--out", "rom"] =
      .ok ⟨"rom", some "rom", none, false, false, false⟩ := rfl
  have way : inPlace.locate "rom" = .file "rom" := by decide +kernel
  have opens : Request.Opens ⟨"rom", some "rom", none, false, false, false⟩ Directory.system inPlace (.ofBytes [])
      (.ofBytes [0x00, 0xE0]) :=
    .file (by decide) (Directory.source_eq_ok_iff.mpr (.inl ⟨"rom", _, way, rfl, rfl⟩))
  have listed := @Listing.value_ofSource_of_even .shipped [0x00, 0xE0] rfl
  have shipped : Request.Rows ⟨"rom", some "rom", none, false, false, false⟩ (Directory.system.Reads inPlace)
      Pattern.shipped := .shipped rfl
  have found := value_listed_eq_ok_iff.mpr ⟨_, _, _, _, shipped, Decoder.compile_shipped, opens, listed, rfl⟩
  have created : Directory.system.create "rom" inPlace = .ok ("rom", _) :=
    Directory.create_eq_ok_iff.mpr ⟨way, rfl⟩
  have succeeds : (run ["disassemble", "chip8", "rom", "--out", "rom"] inPlace []).exit = 0 :=
    exit_of_perform accepted (value_perform_eq_ok_iff.mpr ⟨_, found, deliver_of_create created⟩)
  obtain ⟨bytes, ps, decoder, listing, read, rows, compiled, rfl, -, written, -⟩ :=
    successful_run_writes_listing Directory.describes_view accepted succeeds
  obtain rfl : ps = Pattern.shipped := by
    cases rows with
    | shipped => rfl
    | held asked => cases asked
  obtain rfl := Except.ok.inj (compiled.symm.trans Decoder.compile_shipped)
  cases read with
  | stdin dash => exact absurd dash (by decide)
  | file named held =>
    obtain ⟨name, way', there⟩ := held
    cases way.symm.trans (Directory.resolve_view_eq_some_iff.mp way')
    obtain rfl : bytes = [0x00, 0xE0] := Option.some.inj there.symm
    obtain ⟨silent, name, way', holds, kept⟩ := written "rom" rfl
    cases (Directory.locate_eq_file way _).symm.trans (Directory.resolve_view_eq_some_iff.mp way')
    have line : (Decoder.shipped.decode ⟨0x00, 0xE0⟩).value.text = "CLEAR" := by decide +kernel
    refine ⟨silent, holds.trans ?_, (kept "notes" (by decide)).1⟩
    exact congrArg (fun text => some (String.join [text ++ "\n"]).toUTF8.toList) line

end Command

end Chip8Disasm
