import Mathlib.Data.List.Sort
import StorePlan.Proofs.Plan.Invariant

/-
Which aggregates are accepted, said of the lists of fields as they are
spelled. Building brings the fields into order before anything is checked, so
neither the verdict nor the node depends on the order of the fields in a list
or on how often one is repeated (`ascending_eq_iff`).
-/

namespace StorePlan

/-- The same numbers, in whatever order and however often. -/
def SameMembers (ns ms : List Nat) : Prop := ∀ n, n ∈ ns ↔ n ∈ ms

instance (ns ms : List Nat) : Decidable (SameMembers ns ms) :=
  decidable_of_iff (ns ⊆ ms ∧ ms ⊆ ns)
    ⟨fun h _ => ⟨@h.1 _, @h.2 _⟩, fun h => ⟨fun n => (h n).1, fun n => (h n).2⟩⟩

section Spelling

variable {fields fields' : List Nat} {sets sets' : Option (List (List Nat))}
  {calls : List AggregateCall}

/-- An ascending list is determined by its members. -/
theorem ascending_eq_iff : ascending fields = ascending fields' ↔ SameMembers fields fields' := by
  constructor
  · intro h n
    rw [← mem_ascending, h, mem_ascending]
  · intro h
    refine (pairwise_ascending fields).eq_of_mem_iff (pairwise_ascending fields') fun n => ?_
    rw [mem_ascending, mem_ascending]
    exact h n

/-- However the fields are spelled, the operator is the same once they are in order. -/
theorem Operator.normalize_aggregate_eq (hfields : SameMembers fields fields')
    (hsets : Option.Rel (List.Forall₂ SameMembers) sets sets') :
    (aggregate fields sets calls).normalize = (aggregate fields' sets' calls).normalize := by
  have hordered : sets.map (·.map ascending) = sets'.map (·.map ascending) := by
    cases hsets with
    | none => rfl
    | some hgiven =>
      exact congrArg some (map_eq_map_of_forall₂ hgiven fun _ _ _ h => ascending_eq_iff.2 h)
  rw [normalize, normalize, ascending_eq_iff.2 hfields, hordered]

end Spelling

/-! ## Acceptance -/

/-- An aggregate that can stand over an input. -/
structure AggregateAccepted (input : Plan) (convention : Convention) (fields : List Nat)
    (sets : Option (List (List Nat))) (calls : List AggregateCall) : Prop where
  sameConvention : input.convention = convention
  fieldsInRange : ∀ f ∈ fields, f < input.schema.width
  setsGiven : sets ≠ some []
  setsGrouped : ∀ given ∈ sets, ∀ set ∈ given, set ⊆ fields
  argumentCount : ∀ call ∈ calls, call.function.Takes call.arguments.length
  argumentsInRange : ∀ call ∈ calls, ∀ a ∈ call.arguments, a < input.schema.width
  /-- Outside of relational stores, arguments are not distinct and rows are grouped once. -/
  plain : convention = .document ∨ convention = .vector →
    (∀ call ∈ calls, call.distinct = false) ∧
      ∀ given ∈ sets, ∃ set, given = [set] ∧ SameMembers set fields

variable {input : Plan} {convention : Convention} {fields : List Nat}
  {sets : Option (List (List Nat))} {calls : List AggregateCall}

/-- Rows are grouped once, by all grouped fields, if that is how the sets are spelled. -/
theorem map_ascending_eq_single_iff :
    (sets.map (·.map ascending) = none ∨ sets.map (·.map ascending) = some [ascending fields]) ↔
      ∀ given ∈ sets, ∃ set, given = [set] ∧ SameMembers set fields := by
  cases sets with
  | none => simp
  | some given => simp [List.map_eq_singleton_iff, ascending_eq_iff]

/-- An aggregate is accepted exactly if it is well-formed with its fields in order. -/
theorem aggregateAccepted_iff :
    AggregateAccepted input convention fields sets calls ↔
      input.convention = convention ∧
        AggregateFits convention input.schema (ascending fields) (sets.map (·.map ascending))
          calls := by
  have hordered := (Operator.aggregate fields sets calls).ordered_normalize
  have hgrouped : (∀ given ∈ sets.map (·.map ascending), ∀ set ∈ given, set ⊆ ascending fields) ↔
      ∀ given ∈ sets, ∀ set ∈ given, set ⊆ fields := by
    cases sets <;> simp [List.subset_def]
  have hgiven : sets.map (·.map ascending) ≠ some [] ↔ sets ≠ some [] := by
    cases sets <;> simp
  constructor
  · intro h
    exact ⟨h.sameConvention,
      { fieldsAscend := hordered.1
        fieldsInRange := fun f hf => h.fieldsInRange f (mem_ascending.1 hf)
        setsGiven := hgiven.2 h.setsGiven
        setsAscend := hordered.2
        setsGrouped := hgrouped.2 h.setsGrouped
        argumentCount := h.argumentCount
        argumentsInRange := h.argumentsInRange
        plain := fun hc => (h.plain hc).imp id map_ascending_eq_single_iff.2 }⟩
  · rintro ⟨hconvention, h⟩
    exact
      { sameConvention := hconvention
        fieldsInRange := fun f hf => h.fieldsInRange f (mem_ascending.2 hf)
        setsGiven := hgiven.1 h.setsGiven
        setsGrouped := hgrouped.1 h.setsGrouped
        argumentCount := h.argumentCount
        argumentsInRange := h.argumentsInRange
        plain := fun hc => (h.plain hc).imp id map_ascending_eq_single_iff.1 }

namespace Plan

/-- An aggregate over one input is built exactly if it is accepted, and neither its node nor the
error depends on how its fields are spelled. -/
theorem build_aggregate_iff :
    ((∃ p, build (.aggregate fields sets calls) [input] convention = .ok p) ↔
      AggregateAccepted input convention fields sets calls) ∧
    ∀ fields' sets', SameMembers fields fields' →
      Option.Rel (List.Forall₂ SameMembers) sets sets' →
        build (.aggregate fields sets calls) [input] convention =
          build (.aggregate fields' sets' calls) [input] convention := by
  constructor
  · have hordered := (Operator.aggregate fields sets calls).ordered_normalize
    rw [aggregateAccepted_iff, ← Operator.exists_aggregateSchema_iff hordered]
    simp only [build_eq_ok]
    constructor
    · rintro ⟨p, -, hconvention, schema, hschema, -⟩
      exact ⟨hconvention input (by simp), schema, hschema⟩
    · rintro ⟨hconvention, schema, hschema⟩
      exact ⟨_, rfl, by simpa using hconvention, schema, hschema, rfl⟩
  · intro fields' sets' hfields hsets
    simp only [build, Operator.kind, Operator.normalize_aggregate_eq hfields hsets]

/-- A rollup by the fields 0 and 1, spelled out of order and with repetitions. -/
theorem build_aggregate_rollup :
    let schema : Schema := ⟨[⟨"region", .string none, true⟩, ⟨"year", .integer .bits32, false⟩]⟩
    let input : Plan := ⟨.scan "sales" schema, [], schema, .sql "postgresql"⟩
    let calls : List AggregateCall := [⟨.count, [1], true, some "years"⟩]
    SameMembers [1, 0, 1] [0, 1] ∧
      Option.Rel (List.Forall₂ SameMembers) (some [[1, 0], [0, 0], []]) (some [[0, 1], [0], []]) ∧
      (∃ p, build (.aggregate [1, 0, 1] (some [[1, 0], [0, 0], []]) calls) [input]
        (.sql "postgresql") = .ok p) ∧
      build (.aggregate [1, 0, 1] (some [[1, 0], [0, 0], []]) calls) [input] (.sql "postgresql") =
        build (.aggregate [0, 1] (some [[0, 1], [0], []]) calls) [input] (.sql "postgresql") := by
  intro schema input calls
  have hfields : SameMembers [1, 0, 1] [0, 1] := by decide
  have hsets : Option.Rel (List.Forall₂ SameMembers) (some [[1, 0], [0, 0], []])
      (some [[0, 1], [0], []]) :=
    .some (.cons (by decide) (.cons (by decide) (.cons (by decide) .nil)))
  have haccepted : AggregateAccepted input (.sql "postgresql") [1, 0, 1]
      (some [[1, 0], [0, 0], []]) calls :=
    { sameConvention := rfl
      fieldsInRange := by decide
      setsGiven := by decide
      setsGrouped := by simp
      argumentCount := by simp [calls, AggregateFunction.Takes]
      argumentsInRange := by decide
      plain := by simp }
  exact ⟨hfields, hsets, build_aggregate_iff.1.2 haccepted,
    build_aggregate_iff.2 _ _ hfields hsets⟩

end Plan

end StorePlan
