/-! Runs of equal neighbours in a list, and the list that a row of runs stands for. -/

namespace Chip8Disasm.RunLength
universe u
variable {α : Type u}

/-- The maximal runs of equal neighbours, each with its length. -/
def runs [DecidableEq α] : List α → List (α × Nat)
  | [] => []
  | a :: as =>
    match runs as with
    | [] => [(a, 1)]
    | (b, n) :: rest => if a = b then (b, n + 1) :: rest else (a, 1) :: (b, n) :: rest

/-- The list in which each run is written out. -/
def expand (rs : List (α × Nat)) : List α :=
  rs.flatMap fun r => List.replicate r.2 r.1

end Chip8Disasm.RunLength
