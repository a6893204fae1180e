import Chip8Disasm.Layout
import Mathlib.Data.List.SplitBy

/-! Layouts that come from masks. The layout of a mask cuts nibbles where the mask passes from one character to
    another, and its key keeps the nibbles under the characters that are no operand letters. -/

namespace Chip8Disasm

/-! ### Splitting -/

section
universe u
variable {α : Type u} {r : α → α → Bool} {a b : α}

theorem splitBy_cons_eq (r : α → α → Bool) (a : α) (l : List α) :
    ∃ g gs, (a :: l).splitBy r = (a :: g) :: gs := by
  obtain ⟨g, gs, h⟩ := List.exists_cons_of_ne_nil (List.splitBy_ne_nil.mpr (List.cons_ne_nil a l))
  obtain ⟨hl, hnil, -, -⟩ := List.splitBy_eq_iff.mp h
  cases g with
  | nil => exact absurd List.mem_cons_self hnil
  | cons b g =>
    obtain ⟨rfl, -⟩ := List.cons.inj hl
    exact ⟨g, gs, h⟩

theorem splitBy_cons_of_not_rel (l : List α) (hab : r a b = false) :
    (a :: b :: l).splitBy r = [a] :: (b :: l).splitBy r := by
  have apart : ∀ x ∈ [a].getLast?, r x b = false := by
    intro x hx
    cases hx
    exact hab
  exact List.splitBy_append_cons l apart

theorem splitBy_cons_of_rel {l g : List α} {gs : List (List α)}
    (hab : r a b = true) (h : (b :: l).splitBy r = (b :: g) :: gs) :
    (a :: b :: l).splitBy r = (a :: b :: g) :: gs := by
  obtain ⟨hl, hnil, hin, hout⟩ := List.splitBy_eq_iff.mp h
  refine List.splitBy_eq_iff.mpr ⟨by rw [hl]; rfl, ?_, ?_, ?_⟩
  · intro hmem
    rcases List.mem_cons.mp hmem with hmem | hmem
    · cases hmem
    · exact hnil (List.mem_cons_of_mem _ hmem)
  · intro m hm
    rcases List.mem_cons.mp hm with rfl | hm
    · exact List.isChain_cons_cons.mpr ⟨hab, hin _ List.mem_cons_self⟩
    · exact hin m (List.mem_cons_of_mem _ hm)
  · match gs with
    | [] => exact List.isChain_singleton _
    | g' :: gs =>
      obtain ⟨⟨ha, hb, hne⟩, hrest⟩ := List.isChain_cons_cons.mp hout
      exact List.isChain_cons_cons.mpr ⟨⟨List.cons_ne_nil _ _, hb, by rwa [List.getLast_cons ha]⟩, hrest⟩

end

/-! ### Runs -/

namespace RunLength
universe u
variable {α : Type u} [DecidableEq α]

theorem runs_cons_eq (a : α) (as : List α) : ∃ n rest, runs (a :: as) = (a, n + 1) :: rest := by
  unfold runs
  split
  · exact ⟨0, [], rfl⟩
  · rename_i b n rest _
    by_cases h : a = b
    · exact ⟨n, rest, by simp [h]⟩
    · exact ⟨0, (b, n) :: rest, by simp [h]⟩

theorem runs_cons_self {a : α} {as : List α} {n : Nat} {rest : List (α × Nat)} (h : runs (a :: as) = (a, n) :: rest) :
    runs (a :: a :: as) = (a, n + 1) :: rest := by
  rw [runs, h]
  simp

theorem runs_cons_of_ne {a b : α} (as : List α) (h : a ≠ b) : runs (a :: b :: as) = (a, 1) :: runs (b :: as) := by
  obtain ⟨n, rest, hr⟩ := runs_cons_eq b as
  rw [runs, hr]
  simp [h]

omit [DecidableEq α] in
theorem expand_cons (a : α) (n : Nat) (rs : List (α × Nat)) : expand ((a, n) :: rs) = List.replicate n a ++ expand rs :=
  rfl

theorem expand_runs (l : List α) : expand (runs l) = l := by
  induction l with
  | nil => rfl
  | cons a l ih =>
    match l with
    | [] => rfl
    | b :: l =>
      by_cases h : a = b
      · subst h
        obtain ⟨n, rest, hr⟩ := runs_cons_eq a l
        rw [hr, expand_cons] at ih
        rw [runs_cons_self hr, expand_cons, List.replicate_succ, List.cons_append, ih]
      · rw [runs_cons_of_ne l h, expand_cons, ih]
        rfl

theorem pos_of_mem_runs {r : α × Nat} {l : List α} (h : r ∈ runs l) : 0 < r.2 := by
  induction l with
  | nil => cases h
  | cons a l ih =>
    match l with
    | [] =>
      obtain rfl := List.mem_singleton.mp h
      exact Nat.one_pos
    | b :: l =>
      by_cases hab : a = b
      · subst hab
        obtain ⟨n, rest, hr⟩ := runs_cons_eq a l
        rw [runs_cons_self hr] at h
        rw [hr] at ih
        rcases List.mem_cons.mp h with rfl | h
        · exact Nat.succ_pos _
        · exact ih (List.mem_cons_of_mem _ h)
      · rw [runs_cons_of_ne l hab] at h
        rcases List.mem_cons.mp h with rfl | h
        · exact Nat.one_pos
        · exact ih h

theorem replicate_infix_of_mem_runs {a : α} {n : Nat} {l : List α} (h : (a, n) ∈ runs l) :
    List.replicate n a <:+: l := by
  obtain ⟨before, after, hr⟩ := List.append_of_mem h
  have whole := expand_runs l
  rw [hr, expand, List.flatMap_append, List.flatMap_cons] at whole
  exact ⟨expand before, expand after, by rw [List.append_assoc]; exact whole⟩

end RunLength

namespace Layout

/-! ### What a slot takes -/

@[simp]
theorem key_nil_right (layout : Layout) : layout.key [] = [] := by
  induction layout with
  | nil => rfl
  | cons slot slots ih => simp [key, ih]

theorem key_cons_zero (kind : FieldKind) (slots : Layout) (nibbles : List UInt8) :
    key (⟨kind, 0⟩ :: slots) nibbles = key slots nibbles := by
  simp [key]

theorem key_cons_succ (kind : FieldKind) (n : Nat) (slots : Layout) (x : UInt8) (xs : List UInt8) :
    key (⟨kind, n + 1⟩ :: slots) (x :: xs) =
      (if kind.isOperand then none else some x) :: key (⟨kind, n⟩ :: slots) xs := by
  cases hk : kind.isOperand <;> simp [key, hk]

theorem fields_cons_succ (kind : FieldKind) (n : Nat) (slots : Layout) (x : UInt8) (xs : List UInt8) :
    fields (⟨kind, n + 1⟩ :: slots) (x :: xs) = ⟨kind, x :: xs.take n⟩ :: fields slots (xs.drop n) := rfl

/-! ### Keys of masks -/

/-- The key of a mask keeps the nibbles under the characters that are no operand letters. -/
theorem key_ofRuns {mask : List Char} {nibbles : List UInt8} (h : mask.length = nibbles.length) :
    (ofRuns mask).key nibbles =
      List.zipWith (fun c x => if (FieldKind.ofMaskChar c).isOperand then none else some x) mask nibbles := by
  induction mask generalizing nibbles with
  | nil =>
    obtain rfl := List.length_eq_zero_iff.mp h.symm
    rfl
  | cons c mask ih =>
    obtain ⟨x, xs, rfl⟩ := List.exists_cons_of_length_eq_add_one h.symm
    have hl : mask.length = xs.length := Nat.succ.inj h
    rw [List.zipWith_cons_cons, ← ih hl]
    match mask with
    | [] => simp [ofRuns, RunLength.runs, key_cons_succ, key_cons_zero]
    | d :: mask =>
      by_cases hcd : c = d
      · subst hcd
        obtain ⟨n, rest, hr⟩ := RunLength.runs_cons_eq c mask
        rw [ofRuns, ofRuns, RunLength.runs_cons_self hr, hr]
        exact key_cons_succ _ _ _ _ _
      · rw [ofRuns, RunLength.runs_cons_of_ne mask hcd, List.map_cons, key_cons_succ, key_cons_zero]
        rfl

/-! ### Fields of masks -/

def alike (a b : Char × UInt8) : Bool :=
  a.1 == b.1

/-- The nibbles cut at the longest runs of equal characters of the mask over them, each run a field of the kind
    that its character announces. -/
def cut (mask : List Char) (nibbles : List UInt8) : List Field :=
  ((mask.zip nibbles).splitBy alike).filterMap fun run => run.head?.map fun a => ⟨.ofMaskChar a.1, run.map Prod.snd⟩

theorem cut_cons_self {c : Char} {x y : UInt8} {mask : List Char} {nibbles : List UInt8} {f : Field} {fs : List Field}
    (h : cut (c :: mask) (y :: nibbles) = f :: fs) :
    cut (c :: c :: mask) (x :: y :: nibbles) = ⟨f.kind, x :: f.nibbles⟩ :: fs := by
  obtain ⟨g, gs, hg⟩ := splitBy_cons_eq alike (c, y) (mask.zip nibbles)
  have joined : alike (c, x) (c, y) = true := beq_self_eq_true c
  unfold cut at h ⊢
  rw [List.zip_cons_cons, hg] at h
  rw [List.zip_cons_cons, List.zip_cons_cons, splitBy_cons_of_rel joined hg]
  obtain ⟨rfl, rfl⟩ := List.cons.inj h
  rfl

theorem cut_cons_of_ne {c d : Char} (x y : UInt8) (mask : List Char) (nibbles : List UInt8) (h : c ≠ d) :
    cut (c :: d :: mask) (x :: y :: nibbles) = ⟨.ofMaskChar c, [x]⟩ :: cut (d :: mask) (y :: nibbles) := by
  have apart : alike (c, x) (d, y) = false := beq_false_of_ne h
  unfold cut
  rw [List.zip_cons_cons, List.zip_cons_cons, splitBy_cons_of_not_rel _ apart]
  rfl

theorem fields_ofRuns {mask : List Char} {nibbles : List UInt8} (h : mask.length = nibbles.length) :
    (ofRuns mask).fields nibbles = cut mask nibbles := by
  induction mask generalizing nibbles with
  | nil => rfl
  | cons c mask ih =>
    obtain ⟨x, xs, rfl⟩ := List.exists_cons_of_length_eq_add_one h.symm
    have hl : mask.length = xs.length := Nat.succ.inj h
    match mask, xs with
    | [], [] => rfl
    | d :: mask, y :: xs =>
      by_cases hcd : c = d
      · subst hcd
        obtain ⟨n, rest, hr⟩ := RunLength.runs_cons_eq c mask
        have tail := (ih hl).symm
        rw [ofRuns, hr, List.map_cons, fields_cons_succ] at tail
        rw [cut_cons_self tail, ofRuns, RunLength.runs_cons_self hr]
        rfl
      · rw [cut_cons_of_ne x y mask xs hcd, ← ih hl, ofRuns, RunLength.runs_cons_of_ne mask hcd]
        rfl

/-! ### Masks -/

theorem ofMask?_of_four {mask : String} (four : mask.toList.length = 4) : ofMask? mask = .ok (ofRuns mask.toList) :=
  if_pos four

theorem ofMask?_eq_error_iff {mask : String} {e : TableError} :
    ofMask? mask = .error e ↔ mask.toList.length ≠ 4 ∧ e = .badMask mask := by
  by_cases four : mask.toList.length = 4
  · simp [ofMask?_of_four four, four]
  · have refused : ofMask? mask = .error (.badMask mask) := if_neg four
    simp [refused, four, eq_comm]

end Layout

end Chip8Disasm
