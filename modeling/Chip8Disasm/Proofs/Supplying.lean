import Chip8Disasm.Proofs.Clashing
import Chip8Disasm.Proofs.Failing
import Chip8Disasm.Proofs.Printing
import Chip8Disasm.Proofs.Rearranging
import Mathlib.Data.List.Perm.Basic

/-! The shipped table out of a file. No word fits two of its rows, so its rows may stand in any order. -/

namespace Chip8Disasm

/-! ### Decoders for the rows in any order -/

namespace Decoder

theorem value_compile_shipped (policy : Policy) : (compile policy Pattern.shipped).value = .ok shipped := by
  rw [shipped_eq_ofRows, compile_of_distinct policy Pattern.distinct_shipped]

variable {ps : List Pattern} (perm : ps.Perm Pattern.shipped)
include perm

theorem value_compile_of_perm_shipped (policy : Policy) : (compile policy ps).value = .ok (ofRows ps) := by
  have distinct : (ps.map Pattern.text).Nodup := (perm.map _).nodup_iff.mpr Pattern.distinct_shipped
  rw [compile_of_distinct policy distinct]

theorem decode_of_perm_shipped (w : Word) : (ofRows ps).decode w = shipped.decode w := by
  have one : ∀ p ∈ Pattern.shipped, ∀ q ∈ Pattern.shipped, p.Matches w → q.Matches w → p.shape = q.shape := by
    intro p hp q hq fits fits'
    by_contra different
    exact (Pattern.clashes_shipped p hp q hq different).not_matches fits fits'
  rw [decode, decode, shipped_eq_ofRows, decode?_perm_of_one_shape Pattern.distinct_shipped perm.symm one]

end Decoder

/-! ### Runs that decode alike -/

namespace Command
variable {σ φ : Type} {fs : FileSystem σ φ} {r r' : Request} {d : σ} {stdin : Source}

section
variable {decoder decoder' : Decoder} (alike : ∀ w, decoder.decode w = decoder'.decode w)
include alike

theorem value_list_congr (path : String) (opened : Except FileError Source) :
    (list path opened decoder).value = (list path opened decoder').value := by
  refine Traced.value_andThen_congr rfl fun s => ?_
  simp only [Traced.map, Listing.ofSource_eq, alike]

/-- Tables that decode alike cannot be told apart by what a run comes to. -/
theorem value_perform_congr (file : r.file = r'.file) (out : r.out = r'.out)
    (prepared : (prepare r.policy (r.patterns.map fun path => (path, fs.load path d))).value = .ok decoder)
    (prepared' : (prepare r'.policy (r'.patterns.map fun path => (path, fs.load path d))).value = .ok decoder') :
    (perform fs r d stdin).value = (perform fs r' d stdin).value := by
  have same : (listed fs r d stdin).value = (listed fs r' d stdin).value := by
    rw [listed, listed, Traced.value_andThen_of_ok prepared, Traced.value_andThen_of_ok prepared', file]
    exact value_list_congr alike _ _
  rw [perform, perform, Traced.map, Traced.map, same, out]

end

/-- The shipped table in a file, in any order and however it is laid out, does what the shipped table does, for every
    program and for every request that is changed to ask for the file. -/
theorem shipped_table_from_file {text : String} {ps : List Pattern} (parsed : Table.parse? text = .ok ps)
    (perm : (ps.map Pattern.parts).Perm (Pattern.shipped.map Pattern.parts)) :
    (∃ decoder, (Decoder.compile default ps).value = .ok decoder ∧ ∀ bytes : List UInt8,
      (Listing.disassemble bytes).value =
        (Listing.ofSource decoder (.ofBytes bytes)).value.map fun is => is.map Instruction.text) ∧
    ∀ (σ φ : Type) (p : Platform σ φ) (args supplied : List String) (r : Request) (path : String) (d : σ)
      (stdin : Source), p.parse args = .ok r → r.patterns = none →
      p.parse supplied = .ok { r with patterns := some path } →
      p.files.Reads d path text.toUTF8.toList →
      (p.run supplied d stdin).exit = (p.run args d stdin).exit ∧
      (p.run supplied d stdin).stdout = (p.run args d stdin).stdout ∧
      (p.run supplied d stdin).disk = (p.run args d stdin).disk := by
  rw [List.map_perm_map_iff Pattern.parts_injective] at perm
  refine ⟨⟨_, Decoder.value_compile_of_perm_shipped perm default, fun bytes => ?_⟩, ?_⟩
  · simp only [Listing.disassemble, Traced.map, Listing.ofSource_eq, Decoder.decode_of_perm_shipped perm]
  · intro σ φ p args supplied r path d stdin accepted unasked accepted' read
    refine run_congr accepted' accepted (value_perform_congr (Decoder.decode_of_perm_shipped perm) rfl rfl ?_ ?_)
    · exact value_prepare_eq_ok_iff.mpr ⟨ps, .held rfl read parsed, Decoder.value_compile_of_perm_shipped perm _⟩
    · exact value_prepare_eq_ok_iff.mpr ⟨_, .shipped unasked, Decoder.value_compile_shipped _⟩

/-- The shipped table in a file, from its last row to its first. -/
def turned : Directory :=
  ⟨[("rom", [0x8A, 0xB4]), ("table", (Table.print Pattern.shipped.reverse).toUTF8.toList)]⟩

theorem shipped_table_from_file_turned :
    (∃ decoder, (Decoder.compile default Pattern.shipped.reverse).value = .ok decoder ∧
      (Listing.disassemble [0x8A, 0xB4]).value =
        (Listing.ofSource decoder (.ofBytes [0x8A, 0xB4])).value.map fun is => is.map Instruction.text) ∧
    (run ["disassemble", "chip8", "rom", "--patterns", "table", "--shadowing"] turned []).stdout =
      (run ["disassemble", "chip8", "rom", "--shadowing"] turned []).stdout := by
  have writable : ∀ p ∈ Pattern.shipped.reverse, Table.Writable p.parts := by decide +kernel
  have parsed := Table.parse?_print writable
  obtain ⟨⟨decoder, compiled, listed⟩, runs⟩ :=
    shipped_table_from_file parsed ((List.reverse_perm Pattern.shipped).map Pattern.parts)
  have accepted : program.parse ["disassemble", "chip8", "rom", "--shadowing"] =
      .ok ⟨"rom", none, none, true, false, false⟩ := rfl
  have supplied : program.parse ["disassemble", "chip8", "rom", "--patterns", "table", "--shadowing"] =
      .ok ⟨"rom", none, some "table", true, false, false⟩ := rfl
  have read : Directory.system.Reads turned "table" (Table.print Pattern.shipped.reverse).toUTF8.toList :=
    Directory.reads_iff.mpr ⟨"table", by decide +kernel, rfl⟩
  have same := runs _ _ program _ _ _ "table" turned (.ofBytes []) accepted rfl supplied read
  exact ⟨⟨decoder, compiled, listed _⟩, same.2.1⟩

end Command

end Chip8Disasm
