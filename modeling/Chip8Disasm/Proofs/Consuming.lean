import Chip8Disasm.Proofs.Streaming

/-! What a reader costs its source. A word costs the two bytes that it is made of and nothing behind them. The call that
    finds no word may lose one byte more, and from then on the source is left alone. -/

namespace Chip8Disasm

/-! ### Bytes given by a source -/

namespace Source

/-- The bytes of all answers of a source, whether a read comes that far or not. -/
def held (s : Source) : List UInt8 :=
  s.flatMap ReadStep.bytes

/-- A source gives bytes and is left as another source. Interrupted reads are gone if a byte behind them was given, an
    answer of which only the front was given keeps its other bytes, and all that comes later is untouched. -/
inductive Gives : Source → List UInt8 → Source → Prop
  | nothing (s : Source) : Gives s [] s
  | front {front back : List UInt8} (s : Source) (filled : front ≠ []) (left : back ≠ []) :
      Gives (.data (front ++ back) :: s) front (.data back :: s)
  | whole {bytes more : List UInt8} {s rest : Source} (filled : bytes ≠ []) (given : Gives s more rest) :
      Gives (.data bytes :: s) (bytes ++ more) rest
  | again {fault : Fault} {bytes : List UInt8} {s rest : Source} (disturbed : fault.kind = .interrupted)
      (filled : bytes ≠ []) (given : Gives s bytes rest) : Gives (.fail fault :: s) bytes rest

@[simp]
theorem held_cons (step : ReadStep) (s : Source) : held (step :: s) = step.bytes ++ held s := rfl

@[simp]
theorem held_append (s t : Source) : held (s ++ t) = held s ++ held t := by
  simp [held]

namespace Gives
variable {s t u : Source} {bytes more : List UInt8}

theorem held_eq (h : Gives s bytes t) : s.held = bytes ++ t.held := by
  induction h with
  | nothing => rfl
  | front => simp [ReadStep.bytes]
  | whole _ _ ih => simp [ReadStep.bytes, ih]
  | again _ _ _ ih => simp [ReadStep.bytes, ih]

theorem eq_of_nil (h : Gives s [] t) : t = s := by
  generalize none : ([] : List UInt8) = bytes at h
  cases h with
  | nothing => rfl
  | front _ filled => exact absurd none.symm filled
  | whole filled => exact absurd (List.append_eq_nil_iff.mp none.symm).1 filled
  | again _ filled => exact absurd none.symm filled

theorem trans (h : Gives s bytes t) (h' : Gives t more u) : Gives s (bytes ++ more) u := by
  induction h with
  | nothing => exact h'
  | again disturbed filled _ ih => exact .again disturbed (fun none => filled (List.append_eq_nil_iff.mp none).1) (ih h')
  | whole filled _ ih => exact List.append_assoc _ _ _ ▸ .whole filled (ih h')
  | @front front back s filled left =>
    -- What the second part takes first is the back of the answer that the first part began.
    cases h' with
    | nothing => exact (List.append_nil front).symm ▸ .front s filled left
    | @front front' back' _ _ left' =>
      rw [← List.append_assoc]
      exact .front s (fun none => filled (List.append_eq_nil_iff.mp none).1) left'
    | whole _ given =>
      rw [← List.append_assoc]
      exact .whole (fun none => filled (List.append_eq_nil_iff.mp none).1) given

end Gives

/-! ### Reading and filling -/

theorem gives_of_read {room : Nat} {s rest : Source} {b : UInt8} {bs : List UInt8}
    (h : s.read room = (.ok (b :: bs), rest)) : s.Gives (b :: bs) rest := by
  have filled : b :: bs ≠ [] := List.cons_ne_nil b bs
  obtain ⟨-, back, tail, rfl, ⟨rfl, rfl⟩ | ⟨left, rfl⟩⟩ := eq_of_read_cons h
  · simpa using Gives.whole filled (.nothing rest)
  · exact .front tail filled left

/-- A buffer is filled with what the source gives. A buffer that gets full leaves all else; otherwise reads without a
    byte have been made behind the last one. -/
theorem gives_fill (room : Nat) (s : Source) :
    ∃ passed, s.Gives (fill room s).bytes (passed ++ (fill room s).rest) ∧ held passed = [] ∧
      ((fill room s).bytes.length = room → passed = []) := by
  fun_induction fill room s with
  | case1 s => exact ⟨[], .nothing s, rfl, fun _ => rfl⟩
  | case2 room s hr rest hread =>
    rcases eq_of_read_nil hr hread with ⟨rfl, rfl⟩ | rfl
    · exact ⟨[], .nothing [], rfl, fun _ => rfl⟩
    · exact ⟨[.data []], .nothing _, rfl, fun none => absurd none.symm hr⟩
  | case3 room s hr b bs rest hread _ more ih =>
    obtain ⟨passed, given, silent, full⟩ := ih
    refine ⟨passed, (gives_of_read hread).trans given, silent, fun h => full ?_⟩
    have := (read_ok_cons hread).1
    simp only [List.length_append, more] at h
    omega
  | case4 room s hr fault rest hread _ disturbed ih =>
    obtain rfl := read_error hread
    obtain ⟨passed, given, silent, full⟩ := ih
    by_cases none : (fill room rest).bytes = []
    · rw [none] at given full ⊢
      refine ⟨.fail fault :: passed, ?_, silent, fun h => absurd h.symm hr⟩
      rw [List.cons_append, given.eq_of_nil]
      exact .nothing _
    · exact ⟨passed, .again disturbed none given, silent, full⟩
  | case5 room s hr fault rest hread _ _ =>
    obtain rfl := read_error hread
    exact ⟨[.fail fault], .nothing _, rfl, fun none => absurd none.symm hr⟩

theorem bytes_fill (room : Nat) (s : Source) : (fill room s).bytes = s.stream.take room := by
  rcases Nat.lt_or_ge s.stream.length room with h | h
  · obtain ⟨rest, hfill⟩ := fill_of_lt h
    rw [hfill, List.take_of_length_le (Nat.le_of_lt h)]
  · obtain ⟨rest, hfill, -⟩ := fill_of_le h
    rw [hfill]

end Source

/-! ### The calls of a reader -/

def Reading.isWord : Reading → Bool
  | .word _ => true
  | _ => false

namespace Reader

/-- How many of the first calls of a reader answer with a word. -/
def wordCount (r : Reader) (k : Nat) : Nat :=
  (List.range k).countP fun j => (r.answer j).isWord

theorem offset_next (r : Reader) :
    r.next.value.2.offset = r.offset + 2 * (if r.next.value.1.isWord then 1 else 0) := by
  unfold next
  split
  · rfl
  · split <;> rfl

theorem offset_after (r : Reader) (k : Nat) : (r.after k).offset = r.offset + 2 * r.wordCount k := by
  induction k with
  | zero => rfl
  | succ k ih =>
    rw [after_succ, offset_next, ih, wordCount, wordCount, List.range_succ, List.countP_append, List.countP_singleton,
      answer]
    omega

theorem source_next {r : Reader} (running : r.stopped = false) :
    r.next.value.2.source = (Source.fill 2 r.source).rest := by
  unfold next
  rw [running]
  cases h : Source.fill 2 r.source with
  | mk bytes fault rest =>
    match bytes, fault with
    | _, some _ => rfl
    | [], none => rfl
    | [_], none => rfl
    | _ :: _ :: _, none => rfl

variable {s : Source} {k : Nat}

/-- One call takes up to two bytes of the stream. If it gets both, it leaves all else. -/
theorem Behind.gives_next {r : Reader} (b : Behind s k r) :
    ∃ passed, r.source.Gives ((s.stream.drop (2 * k)).take 2) (passed ++ r.next.value.2.source) ∧
      passed.held = [] ∧ (2 * k + 1 < s.stream.length → passed = []) := by
  obtain ⟨passed, given, silent, full⟩ := Source.gives_fill 2 r.source
  rw [source_next b.running]
  rw [Source.bytes_fill, b.stream] at given full
  refine ⟨passed, given, silent, fun more => full ?_⟩
  rw [List.length_take, List.length_drop]
  omega

/-- As long as words are read the source has given just their bytes. -/
theorem gives_after (h : k ≤ s.stream.length / 2) : s.Gives (s.stream.take (2 * k)) ((ofSource s).after k).source := by
  induction k with
  | zero => exact .nothing s
  | succ k ih =>
    obtain ⟨passed, given, -, full⟩ := (behind_after s (Nat.le_of_lt h)).gives_next
    obtain rfl := full (by omega)
    rw [after_succ, Nat.mul_add, List.take_add]
    exact (ih (Nat.le_of_lt h)).trans given

/-- Once the stop has shown, all bytes in front of it are gone. -/
theorem gives_last (s : Source) : ∃ passed,
    s.Gives s.stream (passed ++ ((ofSource s).after (s.stream.length / 2 + 1)).source) ∧ passed.held = [] := by
  obtain ⟨passed, given, silent, -⟩ := (behind_after s (Nat.le_refl _)).gives_next
  refine ⟨passed, ?_, silent⟩
  have all := (gives_after (Nat.le_refl _)).trans given
  have short : (s.stream.drop (2 * (s.stream.length / 2))).length ≤ 2 := by
    rw [List.length_drop]
    omega
  rwa [List.take_of_length_le short, List.take_append_drop, ← after_succ] at all

theorem isWord_lastWord (s : Source) : (lastWord s).isWord = false := by
  cases h : lastWord s with
  | word w => exact absurd h (lastWord_ne_word s w)
  | ended => rfl
  | failed e => rfl

theorem isWord_answer_iff : ((ofSource s).answer k).isWord = true ↔ k < s.stream.length / 2 := by
  rcases Nat.lt_trichotomy k (s.stream.length / 2) with h | rfl | h
  · obtain ⟨r', hnext, -⟩ := (behind_after s (Nat.le_of_lt h)).next_word (by omega)
    simp [answer, hnext, Reading.isWord, h]
  · simp [answer_last, isWord_lastWord]
  · simp [answer, next_of_stopped (stopped_after s h).1, Reading.isWord, Nat.not_lt_of_lt h]

theorem le_of_words (words : ∀ j < k, ((ofSource s).answer j).isWord = true) : k ≤ s.stream.length / 2 := by
  by_contra h
  exact Nat.lt_irrefl _ (isWord_answer_iff.mp (words _ (Nat.lt_of_not_le h)))

/-- The first call without a word is the one behind all words of the stream. -/
theorem eq_of_first_stop (words : ∀ j < k, ((ofSource s).answer j).isWord = true)
    (stop : ((ofSource s).answer k).isWord = false) : k = s.stream.length / 2 := by
  refine Nat.le_antisymm (le_of_words words) (Nat.le_of_not_lt fun h => ?_)
  rw [isWord_answer_iff.mpr h] at stop
  cases stop

/-- The answers with which a byte is lost: a word without its second byte, or a read that failed behind the first byte of
    a word, which is when the bytes in front of the failure are odd in number. -/
inductive Loses (s : Source) : Reading → Prop
  | dangling (offset : Nat) (byte : UInt8) : Loses s (.failed (.dangling offset byte))
  | failure (fault : Fault) (inside : s.stream.length % 2 = 1) : Loses s (.failed (.failure fault))

theorem loses_lastWord_iff : Loses s (lastWord s) ↔ s.stream.length % 2 = 1 := by
  cases hf : s.fault? with
  | some fault =>
    rw [lastWord_of_fault hf]
    exact ⟨fun h => by cases h; assumption, .failure fault⟩
  | none =>
    rcases Nat.mod_two_eq_zero_or_one s.stream.length with even | odd
    · rw [lastWord_of_even hf even, even]
      exact ⟨nofun, nofun⟩
    · obtain ⟨byte, last⟩ := exists_getLast?_of_odd odd
      rw [lastWord_of_odd hf odd last]
      exact ⟨fun _ => odd, fun _ => .dangling _ byte⟩

/-- Once a call has found no word, all calls leave the reader as it is. -/
theorem after_eq_of_stopped {r : Reader} {j : Nat} (stopped : (r.after k).stopped = true) (h : k ≤ j) :
    r.after j = r.after k := by
  induction h with
  | refl => rfl
  | step _ ih => rw [after_succ, ih, next_of_stopped stopped]

/-- A reader has taken two bytes for each word that it gave and nothing behind them. The first call that finds no word
    takes at most one byte more, and no later call takes anything. -/
theorem never_reads_ahead (s : Source) :
    (∀ k, ((ofSource s).after k).offset = 2 * (ofSource s).wordCount k) ∧
    (∀ k, (∀ j < k, ((ofSource s).answer j).isWord = true) → ∃ taken,
      s.Gives taken ((ofSource s).after k).source ∧ s.held = taken ++ ((ofSource s).after k).source.held ∧
      taken.length = ((ofSource s).after k).offset) ∧
    ∀ k, (∀ j < k, ((ofSource s).answer j).isWord = true) → ((ofSource s).answer k).isWord = false →
      (∃ taken, s.held = taken ++ ((ofSource s).after (k + 1)).source.held ∧
        (Loses s ((ofSource s).answer k) → taken.length = ((ofSource s).after (k + 1)).offset + 1) ∧
        (¬Loses s ((ofSource s).answer k) → taken.length = ((ofSource s).after (k + 1)).offset)) ∧
      ∀ j, k < j → (ofSource s).after j = (ofSource s).after (k + 1) ∧ ((ofSource s).after j).next.log = [] := by
  refine ⟨fun k => ?_, fun k words => ?_, fun k words stop => ?_⟩
  · rw [offset_after]
    exact Nat.zero_add _
  · have running := le_of_words words
    have given := gives_after running
    refine ⟨_, given, given.held_eq, ?_⟩
    rw [(behind_after s running).offset, List.length_take]
    omega
  · obtain rfl := eq_of_first_stop words stop
    obtain ⟨stopped, offset⟩ := stopped_after s (Nat.lt_succ_self _)
    obtain ⟨passed, given, silent⟩ := gives_last s
    refine ⟨⟨s.stream, ?_, ?_⟩, fun j later => ?_⟩
    · rw [given.held_eq, Source.held_append, silent, List.nil_append]
    · rw [answer_last, loses_lastWord_iff, offset]
      omega
    · rw [after_eq_of_stopped stopped later, next_of_stopped stopped]
      exact ⟨rfl, rfl⟩

/-- A word in two answers, and half a word in front of a failure. -/
def broken : Source :=
  [.fail ⟨.interrupted, "again"⟩, .data [0x00], .data [0xE0, 0x6A], .fail ⟨.interrupted, "again"⟩,
    .fail ⟨.other, "gone"⟩, .data [0x12]]

theorem never_reads_ahead_broken :
    (∀ j < 1, ((ofSource broken).answer j).isWord = true) ∧ ((ofSource broken).answer 1).isWord = false ∧
    (∃ taken, broken.Gives taken ((ofSource broken).after 1).source ∧ taken.length = 2) ∧
    (∃ taken, broken.held = taken ++ ((ofSource broken).after 2).source.held ∧ taken.length = 3) ∧
    ((ofSource broken).after 7).offset = 2 := by
  have words : ∀ j < 1, ((ofSource broken).answer j).isWord = true := fun j h => isWord_answer_iff.mpr h
  have stop : ((ofSource broken).answer 1).isWord = false := by
    rw [Bool.eq_false_iff, ne_eq, isWord_answer_iff]
    decide
  obtain ⟨-, running, last⟩ := never_reads_ahead broken
  have offset : ((ofSource broken).after 2).offset = 2 := (stopped_after broken (by decide)).2
  obtain ⟨taken, given, -, two⟩ := running 1 words
  obtain ⟨⟨all, held, lost, -⟩, still⟩ := last 1 words stop
  have loses : Loses broken ((ofSource broken).answer 1) := by
    have last : (ofSource broken).answer 1 = lastWord broken := answer_last broken
    rw [last]
    exact loses_lastWord_iff.mpr (by decide)
  refine ⟨words, stop, ⟨taken, given, ?_⟩, ⟨all, held, ?_⟩, ?_⟩
  · rw [two, (behind_after broken (by decide)).offset]
  · rw [lost loses, offset]
  · rw [(still 7 (by decide)).1, offset]

end Reader

end Chip8Disasm
