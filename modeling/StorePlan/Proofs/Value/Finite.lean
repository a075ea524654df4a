import StorePlan.Proofs.Value.Places

/-
Values in which every binary number is finite. The numbers may stand at any
place of nested lists, so this is said place by place; what holds somewhere in
a list holds of the list itself or somewhere in an item (`somewhere_array_iff`).
-/

namespace StorePlan.Value

/-- An infinite binary number, or what stands for none. -/
def isNonFinite : Value → Bool
  | real x => !x.isFinite
  | double x => !x.isFinite
  | _ => false

/-- A property that the value or a part of it has. -/
def Somewhere (P : Value → Prop) (v : Value) : Prop := ∃ path u, v.at? path = some u ∧ P u

/-- Every binary number in the value is finite. -/
def AllFinite (v : Value) : Prop := ¬v.Somewhere (·.isNonFinite = true)

mutual

/-- Induction on the nesting of lists. -/
theorem induction_items {P : Value → Prop} (scalar : ∀ v, ¬v.IsArray → P v)
    (list : ∀ items, (∀ v ∈ items, P v) → P (array items)) : ∀ v, P v
  | .array items => list items (forall_mem_items scalar list items)
  | .null | .boolean _ | .tinyInt _ | .smallInt _ | .integer _ | .bigInt _ | .decimal _
  | .real _ | .double _ | .string _ | .date _ | .time _ | .timestamp _ =>
    scalar _ (by simp [IsArray])

theorem forall_mem_items {P : Value → Prop} (scalar : ∀ v, ¬v.IsArray → P v)
    (list : ∀ items, (∀ v ∈ items, P v) → P (array items)) : ∀ vs : List Value, ∀ v ∈ vs, P v
  | [] => List.forall_mem_nil _
  | v :: rest => List.forall_mem_cons.2
    ⟨induction_items scalar list v, forall_mem_items scalar list rest⟩

end

section Somewhere

variable {P : Value → Prop} {v : Value} {items : List Value}

theorem somewhere_iff_of_not_isArray (h : ¬v.IsArray) : v.Somewhere P ↔ P v := by
  refine ⟨?_, fun hv => ⟨[], v, by cases v <;> rfl, hv⟩⟩
  rintro ⟨path, u, hat, hu⟩
  cases path with
  | nil =>
    obtain rfl : v = u := by cases v <;> exact Option.some.inj hat
    exact hu
  | cons i path =>
    rw [at?_of_not_isArray h] at hat
    cases hat

theorem somewhere_array_iff :
    (array items).Somewhere P ↔ P (array items) ∨ ∃ v ∈ items, v.Somewhere P := by
  constructor
  · rintro ⟨path, u, hat, hu⟩
    cases path with
    | nil =>
      obtain rfl := Option.some.inj hat
      exact .inl hu
    | cons i path =>
      obtain ⟨v, hv, hat⟩ := Option.bind_eq_some_iff.1 hat
      exact .inr ⟨v, List.mem_of_getElem? hv, path, u, hat, hu⟩
  · rintro (hu | ⟨v, hv, path, u, hat, hu⟩)
    · exact ⟨[], _, rfl, hu⟩
    · obtain ⟨i, hi⟩ := List.mem_iff_getElem?.1 hv
      exact ⟨i :: path, u, Option.bind_eq_some_iff.2 ⟨v, hi, hat⟩, hu⟩

theorem allFinite_iff_of_not_isArray (h : ¬v.IsArray) : v.AllFinite ↔ v.isNonFinite = false := by
  rw [AllFinite, somewhere_iff_of_not_isArray h, Bool.not_eq_true]

theorem allFinite_array_iff : (array items).AllFinite ↔ ∀ v ∈ items, v.AllFinite := by
  simp [AllFinite, somewhere_array_iff, isNonFinite]

end Somewhere

end StorePlan.Value
