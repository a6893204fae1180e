import Chip8Disasm.Instruction
import Chip8Disasm.Proofs.Cutting
import Mathlib.Algebra.GroupWithZero.Nat

/-! Layouts of any slots. Slots may be empty, wider than what is left, or stand behind the last nibble: still the fields
    are consecutive pieces of the word, and the key keeps of each nibble what the fields make of it. It is the same key
    that a sweep over the slots fills in at the places where they stand. -/

namespace Chip8Disasm

namespace Field

/-- A position among the nibbles of fields lies in a field of a given kind. -/
def Within (kind : FieldKind) (fs : List Field) (i : Nat) : Prop :=
  ∃ before f after, fs = before ++ f :: after ∧ f.kind = kind ∧
    (before.flatMap Field.nibbles).length ≤ i ∧ i < (before.flatMap Field.nibbles ++ f.nibbles).length

theorem not_within_nil (kind : FieldKind) (i : Nat) : ¬Within kind [] i := by
  rintro ⟨before, f, after, none, -⟩
  exact List.append_ne_nil_of_right_ne_nil before (List.cons_ne_nil f after) none.symm

theorem within_cons_of_lt {kind : FieldKind} {f : Field} (fs : List Field) {i : Nat} (h : i < f.nibbles.length) :
    Within kind (f :: fs) i ↔ f.kind = kind := by
  constructor
  · rintro ⟨before, g, after, split, hkind, start, -⟩
    match before with
    | [] => exact (List.cons.inj split).1 ▸ hkind
    | _ :: before =>
      obtain ⟨rfl, -⟩ := List.cons.inj split
      rw [List.flatMap_cons, List.length_append] at start
      omega
  · intro hkind
    exact ⟨[], f, fs, rfl, hkind, Nat.zero_le i, h⟩

theorem within_cons_of_le {kind : FieldKind} {f : Field} (fs : List Field) {i : Nat} (h : f.nibbles.length ≤ i) :
    Within kind (f :: fs) i ↔ Within kind fs (i - f.nibbles.length) := by
  constructor
  · rintro ⟨before, g, after, split, hkind, start, stop⟩
    match before with
    | [] =>
      obtain ⟨rfl, -⟩ := List.cons.inj split
      exact absurd stop (Nat.not_lt.mpr h)
    | _ :: before =>
      obtain ⟨rfl, rfl⟩ := List.cons.inj split
      simp only [List.flatMap_cons, List.length_append] at start stop
      exact ⟨before, g, after, rfl, hkind, by omega, by rw [List.length_append]; omega⟩
  · rintro ⟨before, g, after, rfl, hkind, start, stop⟩
    rw [List.length_append] at stop
    refine ⟨f :: before, g, after, rfl, hkind, ?_, ?_⟩
    · rw [List.flatMap_cons, List.length_append]
      omega
    · rw [List.flatMap_cons, List.length_append, List.length_append]
      omega

end Field

theorem FieldKind.isOperand_eq_false_iff {kind : FieldKind} : kind.isOperand = false ↔ kind = .opcode := by
  cases kind <;> simp [isOperand]

namespace Layout

/-! ### Fields -/

theorem map_kind_fields (layout : Layout) (nibbles : List UInt8) :
    (layout.fields nibbles).map Field.kind = layout.map Slot.kind := by
  induction layout generalizing nibbles with
  | nil => rfl
  | cons slot slots ih => rw [fields, List.map_cons, List.map_cons, ih, Slot.fill]

/-- A slot is filled with what the slots before it leave. -/
theorem getElem?_fields (layout : Layout) (nibbles : List UInt8) (k : Nat) :
    (layout.fields nibbles)[k]? =
      layout[k]?.map fun slot => slot.fill (nibbles.drop ((layout.take k).map Slot.width).sum) := by
  induction layout generalizing nibbles k with
  | nil => rfl
  | cons slot slots ih =>
    cases k with
    | zero => rfl
    | succ k =>
      rw [fields, List.getElem?_cons_succ, List.getElem?_cons_succ, ih, List.take_succ_cons, List.map_cons,
        List.sum_cons]
      simp only [List.drop_drop]

theorem flatMap_nibbles_fields (layout : Layout) (nibbles : List UInt8) :
    (layout.fields nibbles).flatMap Field.nibbles = nibbles.take (layout.map Slot.width).sum := by
  induction layout generalizing nibbles with
  | nil => rfl
  | cons slot slots ih =>
    rw [fields, List.flatMap_cons, ih, Slot.fill, List.map_cons, List.sum_cons, ← List.take_add]

/-! ### Keys -/

theorem length_key (layout : Layout) (nibbles : List UInt8) : (layout.key nibbles).length = nibbles.length := by
  induction layout generalizing nibbles with
  | nil => rw [key, List.length_map]
  | cons slot slots ih =>
    rw [key, List.length_append, List.length_map, ih, ← List.length_append, List.take_append_drop]

/-- The key keeps a nibble exactly if the field that takes it is an opcode field. -/
theorem getElem?_key_eq_some_iff {layout : Layout} {nibbles : List UInt8} {i : Nat} {x : UInt8} :
    (layout.key nibbles)[i]? = some (some x) ↔
      nibbles[i]? = some x ∧ Field.Within .opcode (layout.fields nibbles) i := by
  induction layout generalizing nibbles i with
  | nil =>
    rw [key, List.getElem?_map]
    simp [fields, Field.not_within_nil]
  | cons slot slots ih =>
    have size : (slot.fill nibbles).nibbles.length = min slot.width nibbles.length := List.length_take
    rw [key, fields]
    by_cases taken : i < (slot.fill nibbles).nibbles.length
    · have early : i < slot.width := by omega
      rw [List.getElem?_append_left (by rwa [List.length_map]), List.getElem?_map, List.getElem?_take_of_lt early,
        Field.within_cons_of_lt _ taken, Slot.fill, ← FieldKind.isOperand_eq_false_iff]
      cases slot.kind.isOperand <;> simp
    · have past : (slot.fill nibbles).nibbles.length ≤ i := Nat.le_of_not_lt taken
      have left : (nibbles.drop slot.width)[i - (slot.fill nibbles).nibbles.length]? = nibbles[i]? := by
        rw [List.getElem?_drop, size]
        by_cases enough : slot.width ≤ nibbles.length
        · congr 1
          omega
        · rw [List.getElem?_eq_none (by omega), List.getElem?_eq_none (by omega)]
      rw [Field.within_cons_of_le _ past, List.getElem?_append_right (by rwa [List.length_map]), List.length_map,
        ← left]
      exact ih

/-! ### Keys, filled in slot by slot -/

/-- Keeps the nibbles of one more slot if it is an opcode slot. The slot begins where the last one ended, and it ends
    behind the last nibble at the latest. -/
def sweep (nibbles : List UInt8) (swept : Nat × Key) (slot : Slot) : Nat × Key :=
  let start := swept.1
  let stop := min (start + slot.width) nibbles.length
  let kept := swept.2
  (stop, if slot.kind.isOperand then kept
    else kept.take start ++ (nibbles.extract start stop).map some ++ kept.drop stop)

/-- One more slot settles the key of the nibbles that it takes, and keeps nothing yet of those that are left. -/
theorem sweep_append {front : Key} {past left : List UInt8} (h : front.length = past.length) (slot : Slot) :
    sweep (past ++ left) (past.length, front ++ left.map fun _ => none) slot =
      ((past ++ left.take slot.width).length,
        front ++ (left.take slot.width).map (if slot.kind.isOperand then fun _ => none else some) ++
          (left.drop slot.width).map fun _ => none) := by
  have stop : min (past.length + slot.width) (past ++ left).length = (past ++ left.take slot.width).length := by
    simp only [List.length_append, List.length_take]
    omega
  have split : front ++ left.map (fun _ => (none : Option UInt8)) =
      front ++ (left.take slot.width).map (fun _ => none) ++ (left.drop slot.width).map fun _ => none := by
    rw [List.append_assoc, ← List.map_append, List.take_append_drop]
  have piece : (past ++ left).extract past.length (past ++ left.take slot.width).length = left.take slot.width := by
    rw [List.extract_eq_take_drop, List.drop_left, List.length_append, Nat.add_sub_cancel_left, List.length_take,
      ← List.take_eq_take_min]
  have settled : (front ++ (left.take slot.width).map fun _ => (none : Option UInt8)).length =
      (past ++ left.take slot.width).length := by
    rw [List.length_append, List.length_append, List.length_map, h]
  unfold sweep
  dsimp only
  rw [stop]
  cases slot.kind.isOperand with
  | true => rw [if_pos rfl, if_pos rfl, split]
  | false =>
    rw [if_neg Bool.false_ne_true, if_neg Bool.false_ne_true, List.take_left' h, piece, split, List.drop_left' settled]

/-- Going through the slots with the place where the last one ended gives the key, of which nothing is kept at first. -/
theorem foldl_sweep (layout : Layout) (nibbles : List UInt8) :
    (layout.foldl (sweep nibbles) (0, nibbles.map fun _ => none)).2 = layout.key nibbles := by
  -- The slots so far have settled the key of the nibbles that they took, and the other slots settle the rest.
  suffices settled : ∀ (front : Key) (past left : List UInt8), front.length = past.length →
      (layout.foldl (sweep (past ++ left)) (past.length, front ++ left.map fun _ => none)).2 =
        front ++ layout.key left from settled [] [] nibbles rfl
  induction layout with
  | nil => exact fun front past left _ => rfl
  | cons slot slots ih =>
    intro front past left h
    have further := ih (front ++ (left.take slot.width).map (if slot.kind.isOperand then fun _ => none else some))
      (past ++ left.take slot.width) (left.drop slot.width) (by simp [h])
    rw [List.append_assoc past, List.take_append_drop] at further
    rw [List.foldl_cons, sweep_append h, further, key, List.append_assoc]

end Layout

/-! ### Words -/

/-- However the slots are chosen, a word is cut and projected alike: each slot takes what it is wide, as far as there are
    nibbles left, the fields are the word from its first nibble on, and the key holds the nibbles of the opcode fields
    and nothing else. -/
theorem fields_and_key_of_slots (layout : Layout) (mnemonic : String) (w : Word) :
    ∃ fs, Instruction.ofLayout layout mnemonic w = .decoded w mnemonic fs ∧
      fs.length = layout.length ∧ fs.map Field.kind = layout.map Slot.kind ∧
      (∀ k slot, layout[k]? = some slot → ∃ f, fs[k]? = some f ∧
        f.nibbles.length = min slot.width (4 - min 4 ((layout.take k).map Slot.width).sum)) ∧
      fs.flatMap Field.nibbles = w.nibbles.take (min 4 (layout.map Slot.width).sum) ∧
      (layout.key w.nibbles).length = 4 ∧
      ∀ i < 4, (Field.Within .opcode fs i → (layout.key w.nibbles)[i]? = some w.nibbles[i]?) ∧
        (¬Field.Within .opcode fs i → (layout.key w.nibbles)[i]? = some none) := by
  have kinds := layout.map_kind_fields w.nibbles
  have four : (layout.key w.nibbles).length = 4 := layout.length_key w.nibbles
  refine ⟨layout.fields w.nibbles, rfl, by simpa using congrArg List.length kinds, kinds, fun k slot hk => ?_, ?_, four,
    fun i hi => ⟨fun within => ?_, fun outside => ?_⟩⟩
  · refine ⟨_, (layout.getElem?_fields w.nibbles k).trans (congrArg _ hk), ?_⟩
    show (List.take slot.width _).length = _
    rw [List.length_take, List.length_drop, w.length_nibbles]
    omega
  · rw [layout.flatMap_nibbles_fields, List.take_eq_take_iff, w.length_nibbles]
    omega
  · obtain ⟨x, hx⟩ : ∃ x, w.nibbles[i]? = some x := ⟨_, List.getElem?_eq_getElem hi⟩
    rw [hx, Layout.getElem?_key_eq_some_iff]
    exact ⟨hx, within⟩
  · cases hkey : (layout.key w.nibbles)[i]? with
    | none => exact absurd (List.getElem?_eq_none_iff.mp hkey) (by omega)
    | some demand =>
      cases demand with
      | none => rfl
      | some x => exact absurd (Layout.getElem?_key_eq_some_iff.mp hkey).2 outside

/-- A slot of no width, one that finds less than it is wide, and one that finds nothing. -/
def Layout.uneven : Layout :=
  [⟨.constant, 0⟩, ⟨.register, 3⟩, ⟨.opcode, 7⟩, ⟨.opcode, 2⟩]

theorem fields_and_key_of_slots_uneven :
    (∃ f, (Layout.uneven.fields [0x8, 0xA, 0xB, 0x4])[2]? = some f ∧ f.nibbles.length = 1) ∧
      (Layout.uneven.key [0x8, 0xA, 0xB, 0x4])[3]? = some (some 0x4) := by
  obtain ⟨fs, cut, -, -, sizes, -, -, keys⟩ := fields_and_key_of_slots Layout.uneven "ADD" ⟨0x8A, 0xB4⟩
  obtain rfl := (Instruction.decoded.inj cut).2.2
  have within : Field.Within .opcode (Layout.uneven.fields (⟨0x8A, 0xB4⟩ : Word).nibbles) 3 :=
    ⟨[⟨.constant, []⟩, ⟨.register, [0x8, 0xA, 0xB]⟩], ⟨.opcode, [0x4]⟩, [⟨.opcode, []⟩], by decide, rfl, by decide,
      by decide⟩
  exact ⟨sizes 2 ⟨.opcode, 7⟩ rfl, (keys 3 (by decide)).1 within⟩

end Chip8Disasm
