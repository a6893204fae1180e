import Chip8Disasm.Listing
import Chip8Disasm.Proofs.Streaming

/-! Listings of whole programs. Every word of a source is decoded and its reading logged, whether a pattern fits it or
    not, and only the stop of the source decides whether there is a listing. -/

namespace Chip8Disasm

/-! ### Words of bytes -/

/-- The words that bytes make two by two. A last byte that has no second one is left out. -/
def Word.ofStream : List UInt8 → List Word
  | hi :: lo :: bytes => ⟨hi, lo⟩ :: ofStream bytes
  | _ => []

namespace Word

theorem length_ofStream (bytes : List UInt8) : (ofStream bytes).length = bytes.length / 2 := by
  fun_induction ofStream bytes with
  | case1 hi lo bytes ih =>
    rw [List.length_cons, ih, List.length_cons, List.length_cons]
    omega
  | case2 bytes h =>
    match bytes with
    | [] | [_] => simp
    | hi :: lo :: bytes => exact absurd rfl (h hi lo bytes)

theorem ofStream_drop {bytes : List UInt8} {k : Nat} (h : 2 * k + 1 < bytes.length) :
    ofStream (bytes.drop (2 * k)) = ⟨bytes[2 * k], bytes[2 * k + 1]⟩ :: ofStream (bytes.drop (2 * (k + 1))) := by
  rw [List.drop_eq_getElem_cons (by omega), List.drop_eq_getElem_cons h]
  rfl

theorem getElem?_ofStream {bytes : List UInt8} {k : Nat} (h : 2 * k + 1 < bytes.length) :
    (ofStream bytes)[k]? = some ⟨bytes[2 * k], bytes[2 * k + 1]⟩ := by
  induction k generalizing bytes with
  | zero =>
    match bytes, h with
    | _ :: _ :: _, _ => rfl
  | succ k ih =>
    match bytes, h with
    | _ :: _ :: bytes, h =>
      rw [List.length_cons, List.length_cons] at h
      exact @ih bytes (by omega)

theorem flatMap_bytes_ofStream {bytes : List UInt8} (even : bytes.length % 2 = 0) :
    (ofStream bytes).flatMap Word.bytes = bytes := by
  fun_induction ofStream bytes with
  | case1 hi lo bytes ih =>
    rw [List.length_cons, List.length_cons] at even
    rw [List.flatMap_cons, ih (by omega)]
    rfl
  | case2 bytes h =>
    match bytes with
    | [] => rfl
    | [_] => simp at even
    | hi :: lo :: bytes => exact absurd rfl (h hi lo bytes)

end Word

/-! ### Records of words -/

namespace Record

theorem text_read (offset : Nat) (w : Word) :
    (read offset w).text = "0x" ++ Hex.numeral .upper 4 offset ++ ": RawInstruction<0x" ++
      Hex.numeral .upper 4 w.toUInt16.toNat ++ ">" := by
  have parts : ": RawInstruction<0x" = ": " ++ ("RawInstruction<" ++ "0x") := by decide
  unfold text
  dsimp only [Word.logText, Word.text, Hex.marked, toString]
  simp only [parts, String.append_assoc]

theorem text_unmatched (w : Word) :
    (unmatched w).text = "could not match instruction RawInstruction<0x" ++ Hex.numeral .upper 4 w.toUInt16.toNat ++
      ">, mapping to UNKNOWN 0x" ++ Hex.numeral .upper 4 w.toUInt16.toNat := by
  have opening : "could not match instruction RawInstruction<0x" =
      "could not match instruction " ++ ("RawInstruction<" ++ "0x") := by decide
  have middle : ">, mapping to UNKNOWN 0x" = ">" ++ (", mapping to UNKNOWN " ++ "0x") := by decide
  unfold text
  dsimp only [Word.logText, Word.text, Hex.marked, toString]
  simp only [opening, middle, String.append_assoc]

end Record

namespace Listing

/-! ### Collecting -/

section
variable {d : Decoder} {r r' : Reader} {heard : List Record}

theorem collect_of_word {w : Word} (h : r.next = ⟨(.word w, r'), heard⟩) (decoded : List Instruction)
    (log : List Record) :
    collect d r decoded log =
      collect d r' ((d.decode w).value :: decoded) ((d.decode w).log.reverseAux (heard.reverseAux log)) := by
  rw [collect]
  split <;> rename_i h' <;> rw [h] at h' <;> cases h'
  rfl

theorem collect_of_ended (h : r.next = ⟨(.ended, r'), heard⟩) (decoded : List Instruction) (log : List Record) :
    collect d r decoded log = ⟨.ok decoded.reverse, (heard.reverseAux log).reverse⟩ := by
  rw [collect]
  split <;> rename_i h' <;> rw [h] at h' <;> cases h'
  rfl

theorem collect_of_failed {e : StreamError} (h : r.next = ⟨(.failed e, r'), heard⟩) (decoded : List Instruction)
    (log : List Record) : collect d r decoded log = ⟨.error e, (heard.reverseAux log).reverse⟩ := by
  rw [collect]
  split <;> rename_i h' <;> rw [h] at h' <;> cases h'
  rfl

end

/-- What a listing comes to when the reader's last answer is known. -/
def outcome (last : Reading) (is : List Instruction) : Except StreamError (List Instruction) :=
  match last with
  | .failed e => .error e
  | _ => .ok is

def trailOf (d : Decoder) (w : Word) (k : Nat) : List Record :=
  .read (2 * k) w :: if d.decode? w = none then [.unmatched w] else []

/-- What is logged of words that were read with a number of words before them. -/
def trail (d : Decoder) (ws : List Word) (k : Nat) : List Record :=
  (ws.zipIdx k).flatMap fun wk => trailOf d wk.1 wk.2

theorem trailOf_eq (d : Decoder) (w : Word) (k : Nat) : trailOf d w k = .read (2 * k) w :: (d.decode w).log := by
  rw [trailOf, Decoder.decode]
  cases d.decode? w with
  | none => rfl
  | some i => rfl

theorem trail_cons (d : Decoder) (w : Word) (ws : List Word) (k : Nat) :
    trail d (w :: ws) k = .read (2 * k) w :: (d.decode w).log ++ trail d ws (k + 1) := by
  rw [trail, List.zipIdx_cons, List.flatMap_cons, trailOf_eq]
  rfl

theorem collect_of_behind (d : Decoder) {s : Source} {k n : Nat} {r : Reader} (b : Reader.Behind s k r)
    (h : s.stream.length / 2 = k + n) (decoded : List Instruction) (log : List Record) :
    collect d r decoded log =
      ⟨outcome (Reader.lastWord s) (decoded.reverse ++
        (Word.ofStream (s.stream.drop (2 * k))).map fun w => (d.decode w).value),
        log.reverse ++ trail d (Word.ofStream (s.stream.drop (2 * k))) k⟩ := by
  induction n generalizing k r decoded log with
  | zero =>
    obtain ⟨r', hnext, -⟩ := b.next_last h.symm
    have none : Word.ofStream (s.stream.drop (2 * k)) = [] := by
      rw [← List.length_eq_zero_iff, Word.length_ofStream, List.length_drop]
      omega
    rw [none, List.map_nil, List.append_nil, trail, List.zipIdx_nil, List.flatMap_nil, List.append_nil]
    cases hl : Reader.lastWord s with
    | word w => exact absurd hl (Reader.lastWord_ne_word s w)
    | ended => exact collect_of_ended (hl ▸ hnext) decoded log
    | failed e => exact collect_of_failed (hl ▸ hnext) decoded log
  | succ n ih =>
    obtain ⟨r', hnext, b'⟩ := b.next_word (by omega)
    have hws := @Word.ofStream_drop s.stream k (by omega)
    rw [collect_of_word hnext, ih b' (by omega), hws, List.map_cons, trail_cons]
    simp

theorem ofSource_eq (d : Decoder) (s : Source) :
    ofSource d s = ⟨outcome (Reader.lastWord s) ((Word.ofStream s.stream).map fun w => (d.decode w).value),
      trail d (Word.ofStream s.stream) 0⟩ :=
  collect_of_behind d (Reader.behind_ofSource s) (Nat.zero_add _).symm [] []

/-! ### All or nothing -/

theorem outcome_of_even {s : Source} (h : s.fault? = none) (even : s.stream.length % 2 = 0) (is : List Instruction) :
    outcome (Reader.lastWord s) is = .ok is := by
  rw [Reader.lastWord_of_even h even]
  rfl

/-- A source that does not end after whole words stops with an error. -/
theorem exists_lastWord_failed {s : Source} (h : ¬(s.fault? = none ∧ s.stream.length % 2 = 0)) :
    ∃ e, Reader.lastWord s = .failed e := by
  cases hf : s.fault? with
  | some fault => exact ⟨_, Reader.lastWord_of_fault hf⟩
  | none =>
    have odd : s.stream.length % 2 = 1 := by
      have : s.stream.length % 2 ≠ 0 := fun even => h ⟨hf, even⟩
      omega
    obtain ⟨byte, hb⟩ := Reader.exists_getLast?_of_odd odd
    exact ⟨_, Reader.lastWord_of_odd hf odd hb⟩

theorem answer_of_ofStream {s : Source} {k : Nat} {w : Word} (h : (Word.ofStream s.stream)[k]? = some w) :
    (Reader.ofSource s).answer k = .word w := by
  obtain ⟨hk, -⟩ := List.getElem?_eq_some_iff.mp h
  rw [Word.length_ofStream] at hk
  obtain ⟨r', hnext, -⟩ := (Reader.behind_after s (Nat.le_of_lt hk)).next_word (by omega)
  rw [@Word.getElem?_ofStream s.stream k (by omega)] at h
  rw [Reader.answer, hnext, Option.some.inj h]

theorem value_disassemble (bytes : List UInt8) :
    (disassemble bytes).value = (outcome (Reader.lastWord (.ofBytes bytes))
      ((Word.ofStream bytes).map fun w => (Decoder.shipped.decode w).value)).map fun is => is.map Instruction.text := by
  rw [disassemble, ofSource_eq, Source.stream_ofBytes]
  rfl

theorem value_disassemble_of_even {bytes : List UInt8} (even : bytes.length % 2 = 0) :
    (disassemble bytes).value =
      .ok ((Word.ofStream bytes).map fun w => (Decoder.shipped.decode w).value.text) := by
  rw [value_disassemble, outcome_of_even (Source.fault?_ofBytes bytes) (by rwa [Source.stream_ofBytes]), Except.map,
    List.map_map]
  rfl

theorem value_disassemble_of_odd {bytes : List UInt8} (odd : bytes.length % 2 = 1) {byte : UInt8}
    (last : bytes.getLast? = some byte) :
    (disassemble bytes).value = .error (.dangling (bytes.length - 1) byte) := by
  have hl := @Reader.lastWord_of_odd (.ofBytes bytes) byte (Source.fault?_ofBytes bytes)
  rw [Source.stream_ofBytes] at hl
  rw [value_disassemble, hl odd last]
  rfl

/-- A source that ends after whole words is listed word by word, any other source gives the reader's error, and in both
    cases each word that was read is logged, with a warning exactly if no pattern fits it. -/
theorem listing_all_or_nothing :
    (∀ (d : Decoder) (s : Source), ∃ ws : List Word,
      (∀ k w, ws[k]? = some w → (Reader.ofSource s).answer k = .word w) ∧
      (∀ w, (Reader.ofSource s).answer ws.length ≠ .word w) ∧
      (s.fault? = none ∧ s.stream.length % 2 = 0 →
        (Reader.ofSource s).answer ws.length = .ended ∧
        (ofSource d s).value = .ok (ws.map fun w => (d.decode w).value)) ∧
      (¬(s.fault? = none ∧ s.stream.length % 2 = 0) → ∃ e,
        (Reader.ofSource s).answer ws.length = .failed e ∧ (ofSource d s).value = .error e) ∧
      (ofSource d s).log = ws.zipIdx.flatMap fun wk =>
        .read (2 * wk.2) wk.1 :: if d.decode? wk.1 = none then [.unmatched wk.1] else []) ∧
    (∀ (k : Nat) (w : Word),
      (Record.read (2 * k) w).level = .trace ∧
      (Record.read (2 * k) w).text = "0x" ++ Hex.numeral .upper 4 (2 * k) ++ ": RawInstruction<0x" ++
        Hex.numeral .upper 4 w.toUInt16.toNat ++ ">" ∧
      (Record.unmatched w).level = .warn ∧
      (Record.unmatched w).text = "could not match instruction RawInstruction<0x" ++
        Hex.numeral .upper 4 w.toUInt16.toNat ++ ">, mapping to UNKNOWN 0x" ++
        Hex.numeral .upper 4 w.toUInt16.toNat) ∧
    (Decoder.compile .reject Pattern.shipped).value = .ok Decoder.shipped ∧
    ∀ bytes : List UInt8,
      (bytes.length % 2 = 0 → ∃ lines, (disassemble bytes).value = .ok lines ∧ lines.length = bytes.length / 2 ∧
        ∀ (k : Nat) (_ : k < bytes.length / 2),
          lines[k]? = some (Decoder.shipped.decode ⟨bytes[2 * k], bytes[2 * k + 1]⟩).value.text) ∧
      (bytes.length % 2 = 1 → ∃ last, bytes.getLast? = some last ∧
        (disassemble bytes).value = .error (.dangling (bytes.length - 1) last)) := by
  refine ⟨fun d s => ?_, fun k w => ?_, Decoder.compile_shipped, fun bytes => ⟨fun even => ?_, fun odd => ?_⟩⟩
  · refine ⟨Word.ofStream s.stream, fun k w => answer_of_ofStream, fun w => ?_, ?_, fun h => ?_, ?_⟩
    · rw [Word.length_ofStream, Reader.answer_last]
      exact Reader.lastWord_ne_word s w
    · rintro ⟨h, even⟩
      rw [Word.length_ofStream, Reader.answer_last, ofSource_eq]
      exact ⟨Reader.lastWord_of_even h even, outcome_of_even h even _⟩
    · obtain ⟨e, he⟩ := exists_lastWord_failed h
      rw [Word.length_ofStream, Reader.answer_last, ofSource_eq, he]
      exact ⟨e, rfl, rfl⟩
    · rw [ofSource_eq]
      rfl
  · exact ⟨rfl, Record.text_read (2 * k) w, rfl, Record.text_unmatched w⟩
  · refine ⟨_, value_disassemble_of_even even, by rw [List.length_map, Word.length_ofStream], fun k hk => ?_⟩
    rw [List.getElem?_map, @Word.getElem?_ofStream bytes k (by omega)]
    rfl
  · obtain ⟨last, h⟩ := Reader.exists_getLast?_of_odd odd
    exact ⟨last, h, value_disassemble_of_odd odd h⟩

theorem listing_all_or_nothing_clear :
    (∃ lines, (disassemble [0x00, 0xE0]).value = .ok lines ∧ lines[0]? = some "CLEAR") ∧
    (disassemble [0x00, 0xE0, 0x6A]).value = .error (.dangling 2 0x6A) := by
  obtain ⟨-, -, -, programs⟩ := listing_all_or_nothing
  obtain ⟨lines, listed, -, line⟩ := (programs [0x00, 0xE0]).1 rfl
  obtain ⟨last, hlast, failed⟩ := (programs [0x00, 0xE0, 0x6A]).2 rfl
  cases hlast
  have clear : (Decoder.shipped.decode ⟨0x00, 0xE0⟩).value.text = "CLEAR" := by decide +kernel
  exact ⟨⟨lines, listed, (line 0 (by decide)).trans (congrArg some clear)⟩, failed⟩

end Listing

end Chip8Disasm
