/-! Sources of bytes, by the answers that they give to reads. A source may answer with less than is asked for, and
    it may fail now and then and go on afterwards. -/

namespace Chip8Disasm

inductive FaultKind where
  /-- The read was disturbed before it could answer, and can be made again. -/
  | interrupted
  | wouldBlock
  | unexpectedEnd
  | notFound
  | other
  /-- Any further kind, by its name. -/
  | named (name : String)
deriving DecidableEq

structure Fault where
  kind : FaultKind
  message : String
deriving DecidableEq

inductive ReadStep where
  | data (bytes : List UInt8)
  | fail (fault : Fault)
deriving DecidableEq

/-- The answers that a source is about to give, after which it is at its end. -/
abbrev Source := List ReadStep

/-- What filling a buffer led to: the bytes, the failure that cut it short, and the source afterwards. -/
structure Filled where
  bytes : List UInt8
  fault : Option Fault
  rest : Source
deriving DecidableEq

namespace Source

def ofBytes (bytes : List UInt8) : Source :=
  [.data bytes]

/-- One read with room for a number of bytes. What does not fit stays for the next read. No bytes mean the end. -/
def read (room : Nat) : Source → Except Fault (List UInt8) × Source
  | [] => (.ok [], [])
  | .fail fault :: rest => (.error fault, rest)
  | .data bytes :: rest =>
    (.ok (bytes.take room), if (bytes.drop room).isEmpty then rest else .data (bytes.drop room) :: rest)

/-- How much a source can still answer. -/
def weight : Source → Nat
  | [] => 0
  | .fail _ :: rest => weight rest + 1
  | .data bytes :: rest => weight rest + bytes.length + 1

theorem weight_read_error {room : Nat} {s rest : Source} {fault : Fault} (h : s.read room = (.error fault, rest)) :
    weight rest < weight s := by
  match s, h with
  | .fail _ :: _, h =>
    simp only [read, Prod.mk.injEq] at h
    obtain ⟨-, rfl⟩ := h
    simp [weight]

theorem weight_read_ok {room : Nat} {s rest : Source} {bytes : List UInt8} (h : s.read room = (.ok bytes, rest)) :
    weight rest + bytes.length ≤ weight s := by
  match s, h with
  | [], h =>
    simp only [read, Prod.mk.injEq, Except.ok.injEq] at h
    obtain ⟨rfl, rfl⟩ := h
    simp [weight]
  | .data held :: tail, h =>
    simp only [read, Prod.mk.injEq, Except.ok.injEq] at h
    obtain ⟨rfl, rfl⟩ := h
    split <;> rename_i he
    · simp only [weight, List.length_take]
      omega
    · simp only [List.isEmpty_iff, List.drop_eq_nil_iff, Nat.not_le] at he
      simp only [weight, List.length_take, List.length_drop]
      omega

/-- Reads again and again until there is no room left, the source is at its end or it fails. Interrupted reads are
    made again. -/
def fill (room : Nat) (s : Source) : Filled :=
  if room = 0 then ⟨[], none, s⟩
  else
    match h : s.read room with
    | (.ok [], rest) => ⟨[], none, rest⟩
    | (.ok (b :: bs), rest) =>
      have : weight rest < weight s := Nat.lt_of_lt_of_le (by simp) (weight_read_ok h)
      let more := fill (room - (b :: bs).length) rest
      { more with bytes := b :: bs ++ more.bytes }
    | (.error fault, rest) =>
      have := weight_read_error h
      if fault.kind = .interrupted then fill room rest else ⟨[], some fault, rest⟩
termination_by weight s

/-- Filling a buffer takes from the source what it puts into the buffer. -/
theorem weight_fill (room : Nat) (s : Source) :
    weight (fill room s).rest + (fill room s).bytes.length ≤ weight s := by
  fun_induction fill room s with
  | case1 => simp
  | case2 room s _ rest h => exact weight_read_ok h
  | case3 room s _ b bs rest h _ more ih =>
    have taken := weight_read_ok h
    have kept : weight more.rest + more.bytes.length ≤ weight rest := ih
    simp only [List.length_append]
    omega
  | case4 room s _ fault rest h _ _ ih =>
    have := weight_read_error h
    omega
  | case5 room s _ fault rest h _ _ =>
    have := weight_read_error h
    simp only [List.length_nil]
    omega

end Source

end Chip8Disasm
