import Chip8Disasm.Proofs.Stretches

/-! Runs as a code of lists. Runs that are filled and differ from their neighbours are the runs of the list that they
    write out, so a list has one such code only. Going through the list from its front finds it: an element makes the
    last run longer or begins a new one. -/

namespace Chip8Disasm.RunLength

universe u
variable {α : Type u}

/-! ### Canonical runs -/

/-- Runs that are filled and differ from their neighbours. -/
structure Canonical (rs : List (α × Nat)) : Prop where
  filled : ∀ r ∈ rs, 0 < r.2
  apart : rs.IsChain fun r s => r.1 ≠ s.1

namespace Canonical
variable {r : α × Nat} {rs : List (α × Nat)}

theorem nil : Canonical ([] : List (α × Nat)) where
  filled _ hr := absurd hr List.not_mem_nil
  apart := .nil

theorem tail (h : Canonical (r :: rs)) : Canonical rs where
  filled s hs := h.filled s (List.mem_cons_of_mem _ hs)
  apart := (List.isChain_cons.mp h.apart).2

/-- Canonical runs write out a list that begins with another element than the run before them has. -/
theorem head?_expand_tail (h : Canonical (r :: rs)) : (expand rs).head? ≠ some r.1 := by
  rw [head?_expand h.tail.filled]
  intro same
  obtain ⟨s, hs, ha⟩ := Option.map_eq_some_iff.mp same
  exact (List.isChain_cons.mp h.apart).1 s hs ha.symm

theorem concat_iff {a : α} {n : Nat} :
    Canonical (rs ++ [(a, n)]) ↔ Canonical rs ∧ 0 < n ∧ ∀ r ∈ rs.getLast?, r.1 ≠ a := by
  constructor
  · intro ⟨filled, apart⟩
    obtain ⟨front, -, edge⟩ := List.isChain_append.mp apart
    exact ⟨⟨fun r hr => filled r (List.mem_append_left _ hr), front⟩,
      filled _ (List.mem_append_right _ (List.mem_singleton_self _)), fun r hr => edge r hr _ rfl⟩
  · intro ⟨front, here, edge⟩
    refine ⟨fun r hr => ?_, List.isChain_append.mpr ⟨front.apart, .singleton _, fun r hr s hs => ?_⟩⟩
    · rcases List.mem_append.mp hr with hr | hr
      · exact front.filled r hr
      · obtain rfl := List.mem_singleton.mp hr
        exact here
    · obtain rfl := Option.some.inj hs
      exact edge r hr

end Canonical

section
variable [DecidableEq α] {l : List α} {rs : List (α × Nat)}

theorem canonical_runs (l : List α) : Canonical (runs l) where
  filled _ hr := pos_of_mem_runs hr
  apart := isChain_runs l

/-- Equal elements in front of a list that begins with another are one run more. -/
theorem runs_replicate_append {a : α} (n : Nat) (other : l.head? ≠ some a) :
    runs (List.replicate (n + 1) a ++ l) = (a, n + 1) :: runs l := by
  induction n with
  | zero =>
    match l with
    | [] => rfl
    | b :: l => exact runs_cons_of_ne l fun same => other (congrArg some same.symm)
  | succ n ih => exact runs_cons_self ih

theorem runs_expand (h : Canonical rs) : runs (expand rs) = rs := by
  induction rs with
  | nil => rfl
  | cons r rs ih =>
    obtain ⟨a, n⟩ := r
    have filled : 0 < n := h.filled _ List.mem_cons_self
    obtain ⟨n, rfl⟩ := Nat.exists_eq_add_one_of_ne_zero filled.ne'
    rw [expand_cons, runs_replicate_append n h.head?_expand_tail, ih h.tail]

/-- The runs of a list are the only canonical ones that write it out. -/
theorem runs_eq_iff : runs l = rs ↔ Canonical rs ∧ expand rs = l := by
  constructor
  · rintro rfl
    exact ⟨canonical_runs l, expand_runs l⟩
  · rintro ⟨canonical, rfl⟩
    exact runs_expand canonical

/-! ### Growing runs -/

/-- Runs with one more element behind them: the last run grows if it is of this element, and a new one begins if not. -/
def grow (rs : List (α × Nat)) (a : α) : List (α × Nat) :=
  match rs.getLast? with
  | some (b, n) => if b = a then rs.dropLast ++ [(b, n + 1)] else rs ++ [(a, 1)]
  | none => [(a, 1)]

theorem grow_concat_self (rs : List (α × Nat)) (a : α) (n : Nat) : grow (rs ++ [(a, n)]) a = rs ++ [(a, n + 1)] := by
  simp [grow]

theorem grow_concat_of_ne (rs : List (α × Nat)) (n : Nat) {a b : α} (h : b ≠ a) :
    grow (rs ++ [(b, n)]) a = rs ++ [(b, n)] ++ [(a, 1)] := by
  simp [grow, h]

omit [DecidableEq α] in
theorem expand_concat (rs : List (α × Nat)) (a : α) (n : Nat) :
    expand (rs ++ [(a, n)]) = expand rs ++ List.replicate n a := by
  simp [expand]

theorem expand_grow (rs : List (α × Nat)) (a : α) : expand (grow rs a) = expand rs ++ [a] := by
  rcases rs.eq_nil_or_concat' with rfl | ⟨before, ⟨b, n⟩, rfl⟩
  · rfl
  · by_cases same : b = a
    · subst same
      rw [grow_concat_self, expand_concat, expand_concat, List.replicate_succ', List.append_assoc]
    · rw [grow_concat_of_ne before n same, expand_concat]
      rfl

theorem Canonical.grow (h : Canonical rs) (a : α) : Canonical (grow rs a) := by
  rcases rs.eq_nil_or_concat' with rfl | ⟨before, ⟨b, n⟩, rfl⟩
  · exact concat_iff.mpr ⟨.nil, Nat.one_pos, nofun⟩
  · by_cases same : b = a
    · subst same
      obtain ⟨front, -, edge⟩ := concat_iff.mp h
      rw [grow_concat_self]
      exact concat_iff.mpr ⟨front, Nat.succ_pos n, edge⟩
    · rw [grow_concat_of_ne before n same]
      refine concat_iff.mpr ⟨h, Nat.one_pos, fun r hr => ?_⟩
      rw [List.getLast?_concat] at hr
      obtain rfl := Option.some.inj hr
      exact same

/-- One more element makes the runs grow: what they grow to is canonical and writes out the longer list. -/
theorem runs_concat (l : List α) (a : α) : runs (l ++ [a]) = grow (runs l) a :=
  runs_eq_iff.mpr ⟨(canonical_runs l).grow a, by rw [expand_grow, expand_runs]⟩

theorem foldl_grow (l : List α) : l.foldl grow [] = runs l := by
  -- From the right end, as the last element is the last one that is taken up.
  induction l using List.reverseRecOn with
  | nil => rfl
  | append_singleton l a ih => rw [List.foldl_concat, ih, runs_concat]

end

/-! ### Masks -/

/-- The runs of a mask are the only runs that are filled, differ from their neighbours and write the mask out. Any such
    runs are those of the text that they write out. One way through the mask finds them, with each character taken up by
    the last run or by a new one. -/
theorem mask_runs_unique (mask : String) (rs : List (Char × Nat)) :
    (runs mask.toList = rs ↔ Canonical rs ∧ String.ofList (expand rs) = mask) ∧
    (Canonical rs → runs (String.ofList (expand rs)).toList = rs) ∧
    mask.toList.foldl grow [] = runs mask.toList := by
  refine ⟨?_, fun canonical => ?_, foldl_grow mask.toList⟩
  · rw [runs_eq_iff, ← String.toList_inj, String.toList_ofList]
  · rw [String.toList_ofList]
    exact runs_expand canonical

/-- A character that comes back after another begins a run of its own. -/
theorem mask_runs_unique_returning :
    Canonical [('N', 2), ('X', 1), ('N', 1)] ∧ runs "NNXN".toList = [('N', 2), ('X', 1), ('N', 1)] ∧
    runs (String.ofList (expand [('N', 2), ('X', 1), ('N', 1)])).toList = [('N', 2), ('X', 1), ('N', 1)] := by
  have canonical : Canonical [('N', 2), ('X', 1), ('N', 1)] := ⟨by decide, by decide⟩
  obtain ⟨only, own, -⟩ := mask_runs_unique "NNXN" [('N', 2), ('X', 1), ('N', 1)]
  exact ⟨canonical, only.mpr ⟨canonical, by decide⟩, own canonical⟩

end Chip8Disasm.RunLength
