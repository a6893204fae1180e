import Chip8Disasm.Reader
import Mathlib.Logic.Function.Iterate

/-! What a reader makes of a source depends on the bytes before the first stop and on that stop only, not on how the
    bytes are divided into answers. The words are read two bytes each, and then the stop shows, once. -/

namespace Chip8Disasm

/-! ### The bytes of a source and what stops them -/

namespace ReadStep

def isInterrupt : ReadStep → Bool
  | .data _ => false
  | .fail fault => fault.kind = .interrupted

/-- An answer without bytes: the end of the source or a failure. -/
def isStop : ReadStep → Bool
  | .data bytes => bytes.isEmpty
  | .fail _ => true

def bytes : ReadStep → List UInt8
  | .data bytes => bytes
  | .fail _ => []

end ReadStep

namespace Source

def steady (s : Source) : Source :=
  s.filter fun step => !step.isInterrupt

/-- The bytes of a source up to its first stop. -/
def stream (s : Source) : List UInt8 :=
  (s.steady.takeWhile fun step => !step.isStop).flatMap ReadStep.bytes

/-- The failure that is the first stop of a source, if its first stop is not its end. -/
def fault? (s : Source) : Option Fault :=
  match s.steady.find? ReadStep.isStop with
  | some (.fail fault) => some fault
  | _ => none

@[simp]
theorem stream_nil : stream [] = [] := rfl

@[simp]
theorem fault?_nil : fault? [] = none := rfl

@[simp]
theorem stream_data_nil (s : Source) : stream (.data [] :: s) = [] := by
  simp [stream, steady, ReadStep.isInterrupt, ReadStep.isStop]

@[simp]
theorem fault?_data_nil (s : Source) : fault? (.data [] :: s) = none := by
  simp [fault?, steady, ReadStep.isInterrupt, ReadStep.isStop]

theorem stream_data {bytes : List UInt8} (s : Source) (h : bytes ≠ []) :
    stream (.data bytes :: s) = bytes ++ stream s := by
  simp [stream, steady, ReadStep.isInterrupt, ReadStep.isStop, ReadStep.bytes, h]

theorem fault?_data {bytes : List UInt8} (s : Source) (h : bytes ≠ []) : fault? (.data bytes :: s) = fault? s := by
  simp [fault?, steady, ReadStep.isInterrupt, ReadStep.isStop, h]

theorem stream_interrupted {fault : Fault} (s : Source) (h : fault.kind = .interrupted) :
    stream (.fail fault :: s) = stream s := by
  simp [stream, steady, ReadStep.isInterrupt, h]

theorem fault?_interrupted {fault : Fault} (s : Source) (h : fault.kind = .interrupted) :
    fault? (.fail fault :: s) = fault? s := by
  simp [fault?, steady, ReadStep.isInterrupt, h]

theorem stream_fail {fault : Fault} (s : Source) (h : fault.kind ≠ .interrupted) : stream (.fail fault :: s) = [] := by
  simp [stream, steady, ReadStep.isInterrupt, ReadStep.isStop, h]

theorem fault?_fail {fault : Fault} (s : Source) (h : fault.kind ≠ .interrupted) :
    fault? (.fail fault :: s) = some fault := by
  simp [fault?, steady, ReadStep.isInterrupt, ReadStep.isStop, List.find?_cons, h]

theorem stream_ofBytes (bytes : List UInt8) : (ofBytes bytes).stream = bytes := by
  rw [ofBytes]
  by_cases h : bytes = []
  · rw [h, stream_data_nil]
  · rw [stream_data [] h, stream_nil, List.append_nil]

theorem fault?_ofBytes (bytes : List UInt8) : (ofBytes bytes).fault? = none := by
  rw [ofBytes]
  by_cases h : bytes = []
  · rw [h, fault?_data_nil]
  · rw [fault?_data [] h, fault?_nil]

/-! ### One read -/

/-- A read without a byte finds the end of the source, or an answer that holds none. -/
theorem eq_of_read_nil {room : Nat} {s rest : Source} (hr : room ≠ 0) (h : s.read room = (.ok [], rest)) :
    (s = [] ∧ rest = []) ∨ s = .data [] :: rest := by
  match s, h with
  | [], h =>
    cases h
    exact .inl ⟨rfl, rfl⟩
  | .data bytes :: s, h =>
    simp only [read, Prod.mk.injEq, Except.ok.injEq, List.take_eq_nil_iff, hr, false_or] at h
    obtain ⟨rfl, rfl⟩ := h
    simp

/-- A read with bytes takes the front of an answer. What it leaves of the answer, if anything, is read next. -/
theorem eq_of_read_cons {room : Nat} {s rest : Source} {b : UInt8} {bs : List UInt8}
    (h : s.read room = (.ok (b :: bs), rest)) :
    (b :: bs).length ≤ room ∧ ∃ back tail, s = .data (b :: bs ++ back) :: tail ∧
      ((back = [] ∧ rest = tail) ∨ (back ≠ [] ∧ rest = .data back :: tail)) := by
  match s, h with
  | .data bytes :: tail, h =>
    simp only [read, Prod.mk.injEq, Except.ok.injEq, List.isEmpty_iff] at h
    obtain ⟨front, rfl⟩ := h
    rw [← front]
    refine ⟨List.length_take_le room bytes, bytes.drop room, tail, by rw [List.take_append_drop], ?_⟩
    split
    · rename_i none
      exact .inl ⟨none, rfl⟩
    · rename_i left
      exact .inr ⟨left, rfl⟩

theorem read_ok_nil {room : Nat} {s rest : Source} (hr : room ≠ 0) (h : s.read room = (.ok [], rest)) :
    s.stream = [] ∧ s.fault? = none := by
  rcases eq_of_read_nil hr h with ⟨rfl, -⟩ | rfl
  · exact ⟨rfl, rfl⟩
  · exact ⟨stream_data_nil rest, fault?_data_nil rest⟩

theorem read_ok_cons {room : Nat} {s rest : Source} {b : UInt8} {bs : List UInt8}
    (h : s.read room = (.ok (b :: bs), rest)) :
    (b :: bs).length ≤ room ∧ s.stream = b :: bs ++ rest.stream ∧ s.fault? = rest.fault? := by
  obtain ⟨fits, back, tail, rfl, left⟩ := eq_of_read_cons h
  have some : b :: bs ++ back ≠ [] := List.cons_ne_nil b _
  rw [stream_data tail some, fault?_data tail some]
  rcases left with ⟨rfl, rfl⟩ | ⟨left, rfl⟩
  · exact ⟨fits, by rw [List.append_nil], rfl⟩
  · rw [stream_data tail left, fault?_data tail left, ← List.append_assoc]
    exact ⟨fits, rfl, rfl⟩

theorem read_error {room : Nat} {s rest : Source} {fault : Fault} (h : s.read room = (.error fault, rest)) :
    s = .fail fault :: rest := by
  match s, h with
  | .fail fault :: s, h => cases h; rfl

/-! ### Filling a buffer -/

/-- A buffer that the stream can fill is filled, and the source goes on behind it. -/
theorem fill_of_le {room : Nat} {s : Source} (h : room ≤ s.stream.length) :
    ∃ rest, fill room s = ⟨s.stream.take room, none, rest⟩ ∧ rest.stream = s.stream.drop room ∧
      rest.fault? = s.fault? := by
  fun_induction fill room s with
  | case1 s => exact ⟨s, rfl, rfl, rfl⟩
  | case2 room s hr rest hread =>
    rw [(read_ok_nil hr hread).1] at h
    exact absurd (Nat.le_zero.mp h) hr
  | case3 room s hr b bs rest hread _ more ih =>
    obtain ⟨hlen, hstream, hfault⟩ := read_ok_cons hread
    rw [hstream, List.length_append] at h
    obtain ⟨rest', hfill, hrest, hfault'⟩ := ih (by omega)
    refine ⟨rest', ?_, ?_, hfault'.trans hfault.symm⟩
    · simp only [more, hfill, hstream, List.take_append, List.take_of_length_le hlen]
    · rw [hrest, hstream, List.drop_append, List.drop_of_length_le hlen, List.nil_append]
  | case4 room s hr fault rest hread _ hkind ih =>
    obtain rfl := read_error hread
    rw [stream_interrupted rest hkind] at h ⊢
    rw [fault?_interrupted rest hkind]
    exact ih h
  | case5 room s hr fault rest hread _ hkind =>
    obtain rfl := read_error hread
    rw [stream_fail rest hkind] at h
    exact absurd (Nat.le_zero.mp h) hr

/-- A buffer that is too large for the stream gets all of it, and the stop shows. -/
theorem fill_of_lt {room : Nat} {s : Source} (h : s.stream.length < room) :
    ∃ rest, fill room s = ⟨s.stream, s.fault?, rest⟩ := by
  fun_induction fill room s with
  | case1 s => exact absurd h (Nat.not_lt_zero _)
  | case2 room s hr rest hread =>
    obtain ⟨hstream, hfault⟩ := read_ok_nil hr hread
    rw [hstream, hfault]
    exact ⟨rest, rfl⟩
  | case3 room s hr b bs rest hread _ more ih =>
    obtain ⟨hlen, hstream, hfault⟩ := read_ok_cons hread
    rw [hstream, List.length_append] at h
    obtain ⟨rest', hfill⟩ := ih (by omega)
    rw [hstream, hfault]
    exact ⟨rest', by simp only [more, hfill]⟩
  | case4 room s hr fault rest hread _ hkind ih =>
    obtain rfl := read_error hread
    rw [stream_interrupted rest hkind] at h ⊢
    rw [fault?_interrupted rest hkind]
    exact ih h
  | case5 room s hr fault rest hread _ hkind =>
    obtain rfl := read_error hread
    rw [stream_fail rest hkind, fault?_fail rest hkind]
    exact ⟨rest, rfl⟩

end Source

/-! ### The run of a reader -/

namespace Reader

/-- A reader that has read a number of words of a source, and stands in front of the next. -/
structure Behind (s : Source) (k : Nat) (r : Reader) : Prop where
  running : r.stopped = false
  offset : r.offset = 2 * k
  stream : r.source.stream = s.stream.drop (2 * k)
  fault : r.source.fault? = s.fault?

/-- What a reader says after the last word of a source: the failure that stopped the source, else the byte that has
    no second byte, else that the source ended. -/
def lastWord (s : Source) : Reading :=
  match s.fault? with
  | some fault => .failed (.failure fault)
  | none =>
    match s.stream.drop (2 * (s.stream.length / 2)) with
    | [] => .ended
    | byte :: _ => .failed (.dangling (2 * (s.stream.length / 2)) byte)

theorem behind_ofSource (s : Source) : Behind s 0 (ofSource s) :=
  ⟨rfl, rfl, rfl, rfl⟩

namespace Behind
variable {s : Source} {k : Nat} {r : Reader}

theorem next_word (b : Behind s k r) (h : 2 * k + 1 < s.stream.length) :
    ∃ r', r.next = ⟨(.word ⟨s.stream[2 * k], s.stream[2 * k + 1]⟩, r'),
      [.read (2 * k) ⟨s.stream[2 * k], s.stream[2 * k + 1]⟩]⟩ ∧ Behind s (k + 1) r' := by
  have two : r.source.stream = s.stream[2 * k] :: s.stream[2 * k + 1] :: s.stream.drop (2 * (k + 1)) := by
    rw [b.stream, List.drop_eq_getElem_cons (by omega), List.drop_eq_getElem_cons h]
    rfl
  obtain ⟨rest, hfill, hrest, hfault⟩ := @Source.fill_of_le 2 r.source (by rw [two]; simp)
  rw [two] at hfill hrest
  refine ⟨⟨rest, r.offset + 2, false⟩, ?_, rfl, ?_, hrest, hfault.trans b.fault⟩
  · unfold next
    rw [b.running, hfill, b.offset]
    rfl
  · rw [b.offset]
    rfl

/-- Where no two bytes are left the reader says so, and stops. -/
theorem next_last (b : Behind s k r) (hk : k = s.stream.length / 2) :
    ∃ r', r.next = ⟨(lastWord s, r'), []⟩ ∧ r'.stopped = true ∧ r'.offset = 2 * k := by
  subst hk
  obtain ⟨rest, hfill⟩ := @Source.fill_of_lt 2 r.source (by rw [b.stream, List.length_drop]; omega)
  refine ⟨⟨rest, r.offset, true⟩, ?_, rfl, b.offset⟩
  have short : (s.stream.drop (2 * (s.stream.length / 2))).length < 2 := by
    rw [List.length_drop]
    omega
  unfold next lastWord
  rw [b.running, hfill, b.stream, b.fault, b.offset]
  cases s.fault? with
  | some fault => rfl
  | none =>
    match s.stream.drop (2 * (s.stream.length / 2)), short with
    | [], _ => rfl
    | [byte], _ => rfl

end Behind

theorem next_of_stopped {r : Reader} (h : r.stopped = true) : r.next = ⟨(.ended, r), []⟩ := by
  simp [next, h]

/-! ### The last answer -/

section
variable {s : Source}

theorem lastWord_ne_word (s : Source) (w : Word) : lastWord s ≠ .word w := by
  unfold lastWord
  split
  · exact nofun
  · split <;> exact nofun

theorem lastWord_of_fault {fault : Fault} (h : s.fault? = some fault) : lastWord s = .failed (.failure fault) := by
  rw [lastWord, h]

theorem exists_getLast?_of_odd {bytes : List UInt8} (odd : bytes.length % 2 = 1) :
    ∃ byte, bytes.getLast? = some byte := by
  have some : bytes ≠ [] := by
    rintro rfl
    cases odd
  exact ⟨_, List.getLast?_eq_some_getLast some⟩

theorem lastWord_of_odd {byte : UInt8} (h : s.fault? = none) (odd : s.stream.length % 2 = 1)
    (last : s.stream.getLast? = some byte) : lastWord s = .failed (.dangling (s.stream.length - 1) byte) := by
  obtain ⟨bytes, hb⟩ := List.getLast?_eq_some_iff.mp last
  have half : 2 * (s.stream.length / 2) = bytes.length := by
    rw [hb, List.length_append, List.length_singleton] at odd ⊢
    omega
  rw [lastWord, h, half, hb, List.drop_left, List.length_append, List.length_singleton, Nat.add_sub_cancel]

theorem lastWord_of_even (h : s.fault? = none) (even : s.stream.length % 2 = 0) : lastWord s = .ended := by
  have all : s.stream.length ≤ 2 * (s.stream.length / 2) := by omega
  rw [lastWord, h, List.drop_of_length_le all]

end

/-! ### All calls -/

/-- The reader after a number of calls. -/
def after (r : Reader) (n : Nat) : Reader :=
  (fun r => r.next.value.2)^[n] r

/-- The answer to the call that follows a number of calls. -/
def answer (r : Reader) (n : Nat) : Reading :=
  (r.after n).next.value.1

theorem after_succ (r : Reader) (n : Nat) : r.after (n + 1) = (r.after n).next.value.2 :=
  Function.iterate_succ_apply' _ _ _

theorem behind_after (s : Source) {k : Nat} (h : k ≤ s.stream.length / 2) : Behind s k ((ofSource s).after k) := by
  induction k with
  | zero => exact behind_ofSource s
  | succ k ih =>
    obtain ⟨r', hnext, b⟩ := (ih (by omega)).next_word (by omega)
    rw [after_succ, hnext]
    exact b

/-- Once the stop has shown, the reader stays as it is. -/
theorem stopped_after (s : Source) {k : Nat} (h : s.stream.length / 2 < k) :
    ((ofSource s).after k).stopped = true ∧ ((ofSource s).after k).offset = 2 * (s.stream.length / 2) := by
  induction h with
  | refl =>
    obtain ⟨r', hnext, hstop, hoffset⟩ := (behind_after s (Nat.le_refl _)).next_last rfl
    rw [after_succ, hnext]
    exact ⟨hstop, hoffset⟩
  | step _ ih =>
    rw [after_succ, next_of_stopped ih.1]
    exact ih

theorem answer_last (s : Source) : (ofSource s).answer (s.stream.length / 2) = lastWord s := by
  obtain ⟨r', hnext, -⟩ := (behind_after s (Nat.le_refl _)).next_last rfl
  rw [answer, hnext]

/-- The answers of a reader, call by call: the words of the stream, then its stop, and from then on nothing. -/
theorem answer_of_stream (s : Source) :
    (∀ (k : Nat) (_ : k < s.stream.length / 2), ∃ w : Word, (ofSource s).answer k = .word w ∧
      w.bytes = [s.stream[2 * k], s.stream[2 * k + 1]] ∧
      w.toUInt16.toNat = 256 * s.stream[2 * k].toNat + s.stream[2 * k + 1].toNat ∧
      ((ofSource s).after (k + 1)).offset = 2 * (k + 1)) ∧
    (∀ fault, s.fault? = some fault → (ofSource s).answer (s.stream.length / 2) = .failed (.failure fault)) ∧
    (s.fault? = none → s.stream.length % 2 = 1 → ∃ byte, s.stream.getLast? = some byte ∧
      (ofSource s).answer (s.stream.length / 2) = .failed (.dangling (s.stream.length - 1) byte)) ∧
    (s.fault? = none → s.stream.length % 2 = 0 → (ofSource s).answer (s.stream.length / 2) = .ended) ∧
    (∀ k, s.stream.length / 2 < k → (ofSource s).answer k = .ended) ∧
    ∀ k, s.stream.length / 2 ≤ k → ((ofSource s).after k).offset = 2 * (s.stream.length / 2) := by
  refine ⟨fun k h => ?_, fun fault hf => ?_, fun hf odd => ?_, fun hf even => ?_, fun k h => ?_,
    fun k h => ?_⟩
  · obtain ⟨r', hnext, b⟩ := (behind_after s (Nat.le_of_lt h)).next_word (by omega)
    refine ⟨_, by rw [answer, hnext], rfl, Word.toNat_toUInt16 _, ?_⟩
    rw [after_succ, hnext]
    exact b.offset
  · rw [answer_last, lastWord_of_fault hf]
  · obtain ⟨byte, last⟩ := exists_getLast?_of_odd odd
    exact ⟨byte, last, by rw [answer_last, lastWord_of_odd hf odd last]⟩
  · rw [answer_last, lastWord_of_even hf even]
  · rw [answer, next_of_stopped (stopped_after s h).1]
  · rcases Nat.lt_or_eq_of_le h with h | rfl
    · exact (stopped_after s h).2
    · exact (behind_after s (Nat.le_refl _)).offset

/-- Three bytes in two answers with a disturbed read between them, then a failure and a byte that is never read. -/
def disturbed : Source :=
  [.data [0x6A], .fail ⟨.interrupted, "again"⟩, .data [0x12, 0xD1], .fail ⟨.other, "gone"⟩, .data [0x01]]

theorem answer_of_stream_disturbed :
    (∃ w : Word, (ofSource disturbed).answer 0 = .word w ∧ w.toUInt16.toNat = 0x6A12) ∧
    (ofSource disturbed).answer 1 = .failed (.failure ⟨.other, "gone"⟩) ∧
    (ofSource disturbed).answer 2 = .ended ∧ ((ofSource disturbed).after 2).offset = 2 := by
  obtain ⟨words, failed, -, -, ended, offset⟩ := answer_of_stream disturbed
  obtain ⟨w, answered, -, value, -⟩ := words 0 (by decide)
  exact ⟨⟨w, answered, value⟩, failed _ rfl, ended 2 (by decide), offset 2 (by decide)⟩

end Reader

end Chip8Disasm
