import Chip8Disasm.Proofs.Cutting

/-! Stretches, the places of runs in a list. The runs of a list cover exactly its maximal stretches of equal elements,
    one after the other. -/

namespace Chip8Disasm

universe u
variable {α : Type u}

/-! ### Maximal stretches -/

/-- Positions of a list that follow one another, from a first one up to before another, and what stands there. -/
structure Stretch (α : Type u) where
  element : α
  start : Nat
  stop : Nat

/-- A stretch that holds its element throughout and cannot be made longer at either end. -/
structure Stretch.Maximal (l : List α) (s : Stretch α) : Prop where
  filled : s.start < s.stop
  inside : ∀ k, s.start ≤ k → k < s.stop → l[k]? = some s.element
  before : ∀ k, k + 1 = s.start → l[k]? ≠ some s.element
  after : l[s.stop]? ≠ some s.element

namespace Stretch.Maximal
variable {l : List α} {s t : Stretch α} {k : Nat}

theorem stop_le (h : s.Maximal l) : s.stop ≤ l.length := by
  have filled := h.filled
  obtain ⟨last, -⟩ := List.getElem?_eq_some_iff.mp (h.inside (s.stop - 1) (by omega) (by omega))
  omega

/-- One position lies in one maximal stretch only. -/
theorem eq_of_common (hs : s.Maximal l) (ht : t.Maximal l) (in_s : s.start ≤ k ∧ k < s.stop)
    (in_t : t.start ≤ k ∧ k < t.stop) : s = t := by
  have same : s.element = t.element :=
    Option.some.inj ((hs.inside k in_s.1 in_s.2).symm.trans (ht.inside k in_t.1 in_t.2))
  -- Where one of the two begins or ends inside the other, it could be made longer.
  have start : ∀ {s t : Stretch α}, s.Maximal l → t.Maximal l → s.element = t.element → s.start ≤ k → k < s.stop →
      t.start ≤ k → t.start ≤ s.start := by
    intro s t hs ht same hsk hks htk
    by_contra later
    exact ht.before (t.start - 1) (by omega) (same ▸ hs.inside (t.start - 1) (by omega) (by omega))
  have stop : ∀ {s t : Stretch α}, s.Maximal l → t.Maximal l → s.element = t.element → s.start ≤ k → k < s.stop →
      k < t.stop → s.stop ≤ t.stop := by
    intro s t hs ht same hsk hks hkt
    by_contra earlier
    exact ht.after (same ▸ hs.inside t.stop (by omega) (by omega))
  have starts := Nat.le_antisymm (start ht hs same.symm in_t.1 in_t.2 in_s.1) (start hs ht same in_s.1 in_s.2 in_t.1)
  have stops := Nat.le_antisymm (stop hs ht same in_s.1 in_s.2 in_t.2) (stop ht hs same.symm in_t.1 in_t.2 in_s.2)
  obtain ⟨_, _, _⟩ := s
  obtain ⟨_, _, _⟩ := t
  simp only [mk.injEq]
  exact ⟨same, starts, stops⟩

end Stretch.Maximal

/-! ### Stretches of runs -/

namespace RunLength

/-- The stretches that runs cover, one after the other. -/
def stretches (start : Nat) : List (α × Nat) → List (Stretch α)
  | [] => []
  | (a, n) :: rs => ⟨a, start, start + n⟩ :: stretches (start + n) rs

theorem start_le_of_mem_stretches {start : Nat} {rs : List (α × Nat)} {s : Stretch α} (h : s ∈ stretches start rs) :
    start ≤ s.start := by
  induction rs generalizing start with
  | nil => cases h
  | cons r rs ih =>
    rcases List.mem_cons.mp h with rfl | h
    · exact Nat.le_refl _
    · exact Nat.le_trans (Nat.le_add_right _ _) (ih h)

theorem pairwise_stretches (start : Nat) (rs : List (α × Nat)) :
    (stretches start rs).Pairwise fun s t => s.stop ≤ t.start := by
  induction rs generalizing start with
  | nil => exact .nil
  | cons r rs ih => exact .cons (fun s hs => start_le_of_mem_stretches hs) (ih _)

theorem exists_stretch {start k : Nat} {rs : List (α × Nat)} (from_start : start ≤ k)
    (inside : k < start + (expand rs).length) : ∃ s ∈ stretches start rs, s.start ≤ k ∧ k < s.stop := by
  induction rs generalizing start with
  | nil => exact absurd inside (Nat.not_lt.mpr from_start)
  | cons r rs ih =>
    obtain ⟨a, n⟩ := r
    rw [expand_cons, List.length_append, List.length_replicate] at inside
    by_cases here : k < start + n
    · exact ⟨_, List.mem_cons_self, from_start, here⟩
    · obtain ⟨s, hs, hk⟩ := @ih (start + n) (by omega) (by omega)
      exact ⟨s, List.mem_cons_of_mem _ hs, hk⟩

theorem head?_expand {rs : List (α × Nat)} (filled : ∀ r ∈ rs, 0 < r.2) : (expand rs).head? = rs.head?.map Prod.fst := by
  match rs with
  | [] => rfl
  | (a, n) :: rs =>
    obtain ⟨m, rfl⟩ := Nat.exists_eq_add_one_of_ne_zero (filled _ List.mem_cons_self).ne'
    rfl

/-- Runs that are filled and differ from their neighbours cover maximal stretches, whatever stands before them. -/
theorem maximal_of_mem_stretches {front : List α} {rs : List (α × Nat)} (filled : ∀ r ∈ rs, 0 < r.2)
    (apart : rs.IsChain fun r s => r.1 ≠ s.1) (edge : ∀ r ∈ rs.head?, front.getLast? ≠ some r.1) {s : Stretch α}
    (h : s ∈ stretches front.length rs) : s.Maximal (front ++ expand rs) := by
  induction rs generalizing front with
  | nil => cases h
  | cons r rs ih =>
    obtain ⟨a, n⟩ := r
    obtain ⟨here, more⟩ := List.forall_mem_cons.mp filled
    obtain ⟨next, rest⟩ := List.isChain_cons.mp apart
    rw [expand_cons]
    rcases List.mem_cons.mp h with rfl | h
    · refine ⟨Nat.lt_add_of_pos_right here, fun k from_start before_stop => ?_, fun k hk => ?_, ?_⟩
      · dsimp only at from_start before_stop
        rw [List.getElem?_append_right from_start, List.getElem?_append_left (by rw [List.length_replicate]; omega),
          List.getElem?_replicate_of_lt (by omega)]
      · dsimp only at hk
        rw [List.getElem?_append_left (by omega), show k = front.length - 1 by omega, ← List.getLast?_eq_getElem?]
        exact edge _ rfl
      · dsimp only
        rw [← List.append_assoc, List.getElem?_append_right (by simp), List.length_append, List.length_replicate,
          Nat.sub_self, ← List.head?_eq_getElem?, head?_expand more]
        intro same
        obtain ⟨r, hr, ha⟩ := Option.map_eq_some_iff.mp same
        exact next r hr ha.symm
    · rw [← List.append_assoc]
      have last : (front ++ List.replicate n a).getLast? = some a := by
        rw [List.getLast?_append, List.getLast?_replicate, if_neg here.ne']
        rfl
      refine ih more rest (fun r hr => ?_) (by rwa [List.length_append, List.length_replicate])
      rw [last]
      exact fun same => next r hr (Option.some.inj same)

variable [DecidableEq α]

theorem isChain_runs (l : List α) : (runs l).IsChain fun r s => r.1 ≠ s.1 := by
  induction l with
  | nil => exact .nil
  | cons a l ih =>
    match l with
    | [] => exact .singleton _
    | b :: l =>
      obtain ⟨n, rest, hr⟩ := runs_cons_eq b l
      by_cases hab : a = b
      · subst hab
        rw [runs_cons_self hr]
        rw [hr] at ih
        exact List.isChain_cons.mpr (List.isChain_cons.mp ih)
      · rw [runs_cons_of_ne l hab]
        refine List.isChain_cons.mpr ⟨fun r first => ?_, ih⟩
        rw [hr] at first
        cases first
        exact hab

/-- The runs of a list cover its maximal stretches. -/
theorem mem_stretches_runs_iff {l : List α} {s : Stretch α} : s ∈ stretches 0 (runs l) ↔ s.Maximal l := by
  have maximal : ∀ {s}, s ∈ stretches 0 (runs l) → s.Maximal l := by
    intro s h
    have := @maximal_of_mem_stretches α [] (runs l) (fun r => pos_of_mem_runs) (isChain_runs l) (fun _ _ => nofun) s h
    rwa [List.nil_append, expand_runs] at this
  constructor
  · exact maximal
  · intro hs
    have filled := hs.filled
    have stop := hs.stop_le
    obtain ⟨t, ht, common⟩ := @exists_stretch α 0 s.start (runs l) (Nat.zero_le _) (by rw [expand_runs]; omega)
    rwa [hs.eq_of_common (maximal ht) ⟨Nat.le_refl _, filled⟩ common]

end RunLength

end Chip8Disasm
