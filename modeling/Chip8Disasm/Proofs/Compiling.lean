import Chip8Disasm.Decoder
import Chip8Disasm.Proofs.Matching
import Mathlib.Data.List.Induction
import Mathlib.Data.List.Nodup

/-! What compiling a table leads to. After any rows the groups are those of the distinct shapes of the rows, in the
    order of their first rows, and the index of a group holds for each key the last row of the shape with that key.
    A further row is entered without more ado, or it meets the last row with its text: then the policy decides. -/

namespace Chip8Disasm

/-! ### Distinct elements -/

section
universe u
variable {α : Type u} [DecidableEq α]

theorem eraseDups_concat (l : List α) (a : α) :
    (l ++ [a]).eraseDups = if a ∈ l then l.eraseDups else l.eraseDups ++ [a] := by
  rw [List.eraseDups_append]
  by_cases h : a ∈ l <;> simp [List.removeAll, h, List.eraseDups_cons]

/-- What is left of a list without its repetitions stands in the order of the first places in the list. -/
theorem pairwise_eraseDups (l : List α) : l.eraseDups.Pairwise fun a b => l.idxOf a < l.idxOf b := by
  induction l using List.reverseRecOn with
  | nil => exact List.Pairwise.nil
  | append_singleton l a ih =>
    have before : l.eraseDups.Pairwise fun b c => (l ++ [a]).idxOf b < (l ++ [a]).idxOf c := by
      refine ih.imp_of_mem fun {b c} hb hc h => ?_
      rwa [List.idxOf_append_of_mem (List.mem_eraseDups.mp hb), List.idxOf_append_of_mem (List.mem_eraseDups.mp hc)]
    rw [eraseDups_concat]
    split
    · exact before
    · rename_i new
      refine List.pairwise_append.mpr ⟨before, List.pairwise_singleton _ a, fun b hb c hc => ?_⟩
      obtain rfl := List.mem_singleton.mp hc
      have there : b ∈ l := List.mem_eraseDups.mp hb
      rw [List.idxOf_append_of_mem there, List.idxOf_append_of_notMem new]
      exact Nat.lt_add_right _ (List.idxOf_lt_length_of_mem there)

theorem nodup_eraseDups (l : List α) : l.eraseDups.Nodup :=
  (pairwise_eraseDups l).imp fun h same => absurd h (by rw [same]; exact Nat.lt_irrefl _)

/-- Leaving out repetitions does not change which of two elements comes first. -/
theorem idxOf_eraseDups_lt_iff {l : List α} {a b : α} (ha : a ∈ l) (hb : b ∈ l) :
    l.eraseDups.idxOf a < l.eraseDups.idxOf b ↔ l.idxOf a < l.idxOf b := by
  have ordered : ∀ {a b : α}, a ∈ l → b ∈ l → l.eraseDups.idxOf a < l.eraseDups.idxOf b → l.idxOf a < l.idxOf b := by
    intro a b ha hb h
    have hi := List.idxOf_lt_length_of_mem (List.mem_eraseDups.mpr ha)
    have hj := List.idxOf_lt_length_of_mem (List.mem_eraseDups.mpr hb)
    have := List.pairwise_iff_getElem.mp (pairwise_eraseDups l) _ _ hi hj h
    rwa [List.getElem_idxOf, List.getElem_idxOf] at this
  refine ⟨ordered ha hb, fun h => ?_⟩
  rcases Nat.lt_trichotomy (l.eraseDups.idxOf a) (l.eraseDups.idxOf b) with lt | same | gt
  · exact lt
  · rw [(List.idxOf_inj (List.mem_eraseDups.mpr ha)).mp same] at h
    exact absurd h (Nat.lt_irrefl _)
  · exact absurd (ordered hb ha gt) (Nat.lt_asymm h)

end

/-! ### Indices -/

namespace Index
universe u v
variable {κ : Type u} {ν : Type v} [DecidableEq κ]

def ofList (entries : List (κ × ν)) : List (κ × ν) :=
  entries.foldl (fun index entry => put entry.1 entry.2 index) []

theorem ofList_concat (entries : List (κ × ν)) (entry : κ × ν) :
    ofList (entries ++ [entry]) = put entry.1 entry.2 (ofList entries) := by
  simp [ofList]

/-- A key has the value that was put last. -/
theorem get?_ofList (key : κ) (entries : List (κ × ν)) :
    get? key (ofList entries) = (entries.filter fun entry => entry.1 = key).getLast?.map Prod.snd := by
  induction entries using List.reverseRecOn with
  | nil => rfl
  | append_singleton entries entry ih =>
    rw [ofList_concat, List.filter_append]
    by_cases h : entry.1 = key
    · subst h
      simp
    · rw [get?_put_of_ne _ _ (Ne.symm h), ih]
      simp [h]

end Index

/-! ### Results -/

namespace Traced
variable {α β γ ε : Type}

theorem map_map_ok (t : Traced (Except ε α)) (f : α → β) (g : β → γ) :
    ((t.map fun v => v.map f).map fun v => v.map g) = t.map fun v => v.map fun a => g (f a) := by
  obtain ⟨value, log⟩ := t
  cases value <;> rfl

theorem map_andThen (t : Traced (Except ε α)) (f : α → β) (next : β → Traced (Except ε γ)) :
    (t.map fun v => v.map f).andThen next = t.andThen fun a => next (f a) := by
  obtain ⟨value, log⟩ := t
  cases value <;> rfl

theorem andThen_map (t : Traced (Except ε α)) (next : α → Traced (Except ε β)) (f : β → γ) :
    (t.andThen fun a => (next a).map fun v => v.map f) = (t.andThen next).map fun v => v.map f := by
  obtain ⟨value, log⟩ := t
  cases value <;> rfl

theorem andThen_assoc (t : Traced (Except ε α)) (next : α → Traced (Except ε β)) (last : β → Traced (Except ε γ)) :
    (t.andThen next).andThen last = t.andThen fun a => (next a).andThen last := by
  obtain ⟨value, log⟩ := t
  cases value with
  | error e => rfl
  | ok a =>
    simp only [andThen]
    obtain ⟨value, heard⟩ := next a
    cases value with
    | error e => rfl
    | ok b => simp only [List.append_assoc]

theorem value_andThen_eq_ok {t : Traced (Except ε α)} {next : α → Traced (Except ε β)} {b : β} :
    (t.andThen next).value = .ok b ↔ ∃ a, t.value = .ok a ∧ (next a).value = .ok b := by
  obtain ⟨value, log⟩ := t
  cases value with
  | error e =>
    constructor
    · intro h
      cases h
    · rintro ⟨a, h, -⟩
      cases h
  | ok a =>
    constructor
    · intro h
      exact ⟨a, rfl, h⟩
    · rintro ⟨a', h, hb⟩
      cases h
      exact hb

theorem value_andThen_eq_error {t : Traced (Except ε α)} {next : α → Traced (Except ε β)} {e : ε} :
    (t.andThen next).value = .error e ↔ t.value = .error e ∨ ∃ a, t.value = .ok a ∧ (next a).value = .error e := by
  obtain ⟨value, log⟩ := t
  cases value <;> simp [andThen]

theorem value_andThen_of_ok {t : Traced (Except ε α)} {next : α → Traced (Except ε β)} {a : α}
    (h : t.value = .ok a) : (t.andThen next).value = (next a).value := by
  obtain ⟨_, log⟩ := t
  obtain rfl := h
  rfl

theorem value_andThen_congr {t t' : Traced (Except ε α)} {next next' : α → Traced (Except ε β)}
    (same : t.value = t'.value) (more : ∀ a, (next a).value = (next' a).value) :
    (t.andThen next).value = (t'.andThen next').value := by
  obtain ⟨value, log⟩ := t
  obtain ⟨_, log'⟩ := t'
  obtain rfl := same
  cases value with
  | error e => rfl
  | ok a => exact more a

end Traced

/-! ### Groups of rows -/

namespace Group

/-- The group of a shape after rows were entered. -/
def ofRows (ps : List Pattern) (shape : String) : Group where
  shape := shape
  layout := .ofRuns shape.toList
  index := Index.ofList ((ps.filter fun p => p.shape = shape).map fun p => (p.key, p))

/-- The groups after rows were entered: one for each shape, in the order of their first rows. -/
def allOf (ps : List Pattern) : List Group :=
  (ps.map Pattern.shape).eraseDups.map (ofRows ps)

/-- The row that a text stands for: the last with this text. -/
def holder? (ps : List Pattern) (text : String) : Option Pattern :=
  (ps.filter fun p => p.text = text).getLast?

/-- What is said of a row when it comes after other rows. -/
def verdict (policy : Policy) (ps : List Pattern) (p : Pattern) : Traced (Except TableError Unit) :=
  match holder? ps p.text, policy with
  | none, _ => ⟨.ok (), []⟩
  | some old, .reject => ⟨.error (.collision p.text old.mnemonic p.mnemonic), []⟩
  | some old, .lastWins => ⟨.ok (), [.shadowed p old]⟩

@[simp]
theorem shape_ofRows (ps : List Pattern) (shape : String) : (ofRows ps shape).shape = shape := rfl

/-! ### Entering a row -/

theorem ofRows_concat_self (ps : List Pattern) (p : Pattern) :
    ofRows (ps ++ [p]) p.shape = { ofRows ps p.shape with index := Index.put p.key p (ofRows ps p.shape).index } := by
  simp [ofRows, Index.ofList_concat]

theorem ofRows_concat_of_ne (ps : List Pattern) {p : Pattern} {shape : String} (h : p.shape ≠ shape) :
    ofRows (ps ++ [p]) shape = ofRows ps shape := by
  simp [ofRows, h]

theorem get?_ofRows (ps : List Pattern) (shape : String) (key : Key) :
    Index.get? key (ofRows ps shape).index = (ps.filter fun p => p.shape = shape ∧ p.key = key).getLast? := by
  simp only [ofRows, Index.get?_ofList, List.filter_map, List.getLast?_map, Option.map_map, List.filter_filter,
    Function.comp_def, Option.map_id']
  simp only [Bool.decide_and, Bool.and_comm]

/-- The group of a row's shape knows the row by its text. -/
theorem get?_ofRows_eq_holder? (ps : List Pattern) (p : Pattern) :
    Index.get? p.key (ofRows ps p.shape).index = holder? ps p.text := by
  simp only [get?_ofRows, holder?, Pattern.text_eq_iff]

theorem add_ofRows (policy : Policy) (ps : List Pattern) (p : Pattern) :
    (ofRows ps p.shape).add policy p =
      (verdict policy ps p).map fun v => v.map fun _ => ofRows (ps ++ [p]) p.shape := by
  unfold add verdict
  rw [get?_ofRows_eq_holder?, ofRows_concat_self]
  cases holder? ps p.text with
  | none => rfl
  | some old => cases policy <;> rfl

theorem ofRows_of_new {ps : List Pattern} {shape : String} (h : shape ∉ ps.map Pattern.shape) :
    ofRows ps shape = ⟨shape, .ofRuns shape.toList, []⟩ := by
  have none : (ps.filter fun p => p.shape = shape) = [] := by
    rw [List.filter_eq_nil_iff]
    intro p hp hs
    exact h (List.mem_map.mpr ⟨p, hp, of_decide_eq_true hs⟩)
  rw [ofRows, none]
  rfl

theorem ofShape?_shape (p : Pattern) : ofShape? p.shape = .ok ⟨p.shape, .ofRuns p.shape.toList, []⟩ := by
  rw [ofShape?, p.ofMask?_shape]
  rfl

theorem map_ofRows_concat (ps : List Pattern) {p : Pattern} {shapes : List String} (h : p.shape ∉ shapes) :
    shapes.map (ofRows (ps ++ [p])) = shapes.map (ofRows ps) := by
  refine List.map_congr_left fun shape hs => ofRows_concat_of_ne ps ?_
  rintro rfl
  exact h hs

/-- Entering a row where some shapes have a group. A shape without a group has no rows. -/
theorem addTo_map_ofRows (policy : Policy) {ps : List Pattern} (p : Pattern) {shapes : List String}
    (nodup : shapes.Nodup) (known : p.shape ∈ ps.map Pattern.shape → p.shape ∈ shapes) :
    addTo policy p (shapes.map (ofRows ps)) = (verdict policy ps p).map fun v => v.map fun _ =>
      (if p.shape ∈ shapes then shapes else shapes ++ [p.shape]).map (ofRows (ps ++ [p])) := by
  induction shapes with
  | nil =>
    have new : p.shape ∉ ps.map Pattern.shape := fun h => List.not_mem_nil (known h)
    rw [List.map_nil, addTo, ofShape?_shape, ← ofRows_of_new new]
    dsimp only
    rw [add_ofRows, Traced.map_map_ok]
    rfl
  | cons shape shapes ih =>
    obtain ⟨hnot, hnodup⟩ := List.nodup_cons.mp nodup
    rw [List.map_cons, addTo, shape_ofRows]
    by_cases h : shape = p.shape
    · subst h
      rw [if_pos rfl, if_pos List.mem_cons_self, add_ofRows, Traced.map_map_ok, List.map_cons,
        map_ofRows_concat ps hnot]
    · have known' : p.shape ∈ ps.map Pattern.shape → p.shape ∈ shapes := fun hp =>
        (List.mem_cons.mp (known hp)).resolve_left (Ne.symm h)
      have place : (if p.shape ∈ shape :: shapes then shape :: shapes else shape :: shapes ++ [p.shape]) =
          shape :: if p.shape ∈ shapes then shapes else shapes ++ [p.shape] := by
        by_cases hp : p.shape ∈ shapes <;> simp [hp, Ne.symm h]
      rw [if_neg h, ih hnodup known', Traced.map_map_ok, place, List.map_cons, ofRows_concat_of_ne ps (Ne.symm h)]

theorem addTo_allOf (policy : Policy) (ps : List Pattern) (p : Pattern) :
    addTo policy p (allOf ps) = (verdict policy ps p).map fun v => v.map fun _ => allOf (ps ++ [p]) := by
  have known : p.shape ∈ ps.map Pattern.shape → p.shape ∈ (ps.map Pattern.shape).eraseDups := List.mem_eraseDups.mpr
  rw [allOf, addTo_map_ofRows policy p (nodup_eraseDups _) known, allOf, List.map_append, List.map_singleton,
    eraseDups_concat]
  simp only [List.mem_eraseDups]

/-! ### Entering all rows -/

/-- What is said of rows one after the other when they come after other rows, up to the first that is refused. -/
def verdicts (policy : Policy) (before : List Pattern) : List Pattern → Traced (Except TableError Unit)
  | [] => ⟨.ok (), []⟩
  | p :: ps => (verdict policy before p).andThen fun _ => verdicts policy (before ++ [p]) ps

theorem addAll_allOf (policy : Policy) (before ps : List Pattern) :
    addAll policy ps (allOf before) = (verdicts policy before ps).map fun v => v.map fun _ => allOf (before ++ ps) := by
  induction ps generalizing before with
  | nil => rw [List.append_nil]; rfl
  | cons p ps ih =>
    rw [addAll, addTo_allOf, Traced.map_andThen, verdicts, ← Traced.andThen_map]
    congr 1
    funext _
    rw [ih, List.append_assoc]
    rfl

end Group

/-! ### Compiling -/

namespace Decoder

def ofRows (ps : List Pattern) : Decoder :=
  ⟨Group.allOf ps⟩

theorem compile_eq (policy : Policy) (ps : List Pattern) :
    compile policy ps = (Group.verdicts policy [] ps).andThen fun _ =>
      ⟨.ok (ofRows ps), [.compiled ps.length (ps.map Pattern.shape).eraseDups.length]⟩ := by
  rw [compile, show ([] : List Group) = Group.allOf [] from rfl, Group.addAll_allOf, Traced.map_andThen,
    List.nil_append]
  simp only [Group.allOf, List.length_map]
  rfl

/-- However collisions are treated, a table that compiles has one decoder. -/
theorem eq_ofRows_of_compile {policy : Policy} {ps : List Pattern} {d : Decoder}
    (h : (compile policy ps).value = .ok d) : d = ofRows ps := by
  rw [compile_eq] at h
  obtain ⟨-, -, h⟩ := Traced.value_andThen_eq_ok.mp h
  exact (Except.ok.inj h).symm

theorem shipped_eq_ofRows : shipped = ofRows Pattern.shipped :=
  eq_ofRows_of_compile compile_shipped

end Decoder

end Chip8Disasm
