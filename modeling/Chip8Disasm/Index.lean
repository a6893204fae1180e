/-! Lists of keys with their values. A new key goes to the end, and a key that is there keeps its place. -/

namespace Chip8Disasm.Index
universe u v
variable {κ : Type u} {ν : Type v} [DecidableEq κ]

def get? (key : κ) : List (κ × ν) → Option ν
  | [] => none
  | entry :: rest => if entry.1 = key then some entry.2 else get? key rest

def put (key : κ) (value : ν) : List (κ × ν) → List (κ × ν)
  | [] => [(key, value)]
  | entry :: rest => if entry.1 = key then (key, value) :: rest else entry :: put key value rest

@[simp]
theorem get?_put_self (key : κ) (value : ν) (entries : List (κ × ν)) :
    get? key (put key value entries) = some value := by
  induction entries with
  | nil => simp [put, get?]
  | cons entry rest ih =>
    unfold put
    split
    · simp [get?]
    · rename_i h
      simp [get?, h, ih]

theorem get?_put_of_ne {key other : κ} (value : ν) (entries : List (κ × ν)) (h : other ≠ key) :
    get? other (put key value entries) = get? other entries := by
  induction entries with
  | nil => simp [put, get?, h.symm]
  | cons entry rest ih =>
    unfold put
    split
    · rename_i he
      simp [get?, he, h.symm]
    · simp [get?, ih]

end Chip8Disasm.Index
