import StorePlan.Document.Pipeline
import StorePlan.Proofs.Plan.Invariant
import StorePlan.Proofs.Predicate.Failures
import StorePlan.Proofs.Value.Coercion

/-
Failures of pipelines. A consistent plan fails to become a pipeline only for
what the document store has no form for; that a field is not there, that a
literal cannot be converted or that an operator has too few inputs is never
found out so late.
-/

namespace StorePlan

/-- The failures that a consistent plan may meet on its way to a pipeline. -/
def DocumentError.IsForeseen : DocumentError → Prop
  | operator _ | noAccumulator _ | accumulatorArguments _ | expression _ | malformedAtom _
  | literal _ => True
  | plan e => e.IsForeseen
  | convention _ | coercion _ => False

namespace Document

open DocumentError (IsForeseen)

/-! ## Filters -/

theorem errorsAre_encodeLiteral (v : Value) : ErrorsAre IsForeseen (encodeLiteral v) :=
  errorsAre_mapError fun _ => trivial

theorem errorsAre_encodeLiterals (vs : List Value) : ErrorsAre IsForeseen (encodeLiterals vs) :=
  errorsAre_mapError fun _ => trivial

theorem errorsAre_atomValues (a : Atom) (vs : List Value) :
    ErrorsAre IsForeseen (atomValues a vs) := by
  induction vs with
  | nil => exact errorsAre_ok
  | cons v rest ih =>
    exact (v.errorsAre_coerce a.type _).bind fun _ _ => ih.bind fun _ _ => errorsAre_pure

theorem errorsAre_operand (a : Atom) (values : List Value) (position : Nat) :
    ErrorsAre IsForeseen (operand a values position) := by
  unfold operand
  split
  · exact errorsAre_encodeLiteral _
  · simp [IsForeseen]

theorem errorsAre_comparison (name : String) (a : Atom) (values : List Value) :
    ErrorsAre IsForeseen (comparison name a values) :=
  (errorsAre_operand a values 0).bind fun _ _ => errorsAre_pure

theorem errorsAre_positiveCondition (a : Atom) (values : List Value) :
    ErrorsAre IsForeseen (positiveCondition a values) := by
  unfold positiveCondition
  generalize a.comparison = kind
  cases kind with
  | greater | less | greaterOrEqual | lessOrEqual => exact errorsAre_comparison _ _ _
  | between =>
    exact (errorsAre_operand a values 0).bind fun _ _ =>
      (errorsAre_operand a values 1).bind fun _ _ => errorsAre_pure
  | like => dsimp only; split <;> simp [IsForeseen]
  | _ => simp [IsForeseen]

theorem errorsAre_condition (a : Atom) (values : List Value) :
    ErrorsAre IsForeseen (condition a values) := by
  unfold condition
  generalize a.comparison = kind
  cases kind with
  | equal => exact errorsAre_comparison _ _ _
  | isIn => exact (errorsAre_encodeLiterals values).bind fun _ _ => errorsAre_pure
  | isNull | isNotNull => exact errorsAre_ok
  | _ => exact (errorsAre_positiveCondition a values).bind fun _ _ => errorsAre_pure

theorem errorsAre_filter : ∀ p : Predicate, ErrorsAre IsForeseen (filter p)
  | .atomic a =>
    (errorsAre_atomValues a a.values).bind fun values _ =>
      (errorsAre_condition a values).bind fun _ _ => errorsAre_pure
  | .compound _ left right =>
    (errorsAre_filter left).bind fun _ _ =>
      (errorsAre_filter right).bind fun _ _ => errorsAre_pure

/-! ## Fields and expressions -/

section Fields

variable {input output : Schema}

theorem errorsAre_fieldName {i : Nat} (h : i < input.width) :
    ErrorsAre IsForeseen (fieldName input i) := by
  obtain ⟨c, hc⟩ := Schema.exists_column? h
  simp [fieldName, hc]

theorem errorsAre_fieldPath {i : Nat} (h : i < input.width) :
    ErrorsAre IsForeseen (fieldPath input i) :=
  (errorsAre_fieldName h).bind fun _ _ => errorsAre_pure

theorem errorsAre_callExpression (whole : RowExpr) (op : RowOp) (operands : List Json) :
    ErrorsAre IsForeseen (callExpression whole op operands) := by
  unfold callExpression
  split
  · exact errorsAre_ok
  · exact errorsAre_ok
  · split <;> simp [IsForeseen]

mutual

theorem errorsAre_expression : ∀ {e : RowExpr}, e.Within input.width →
    ErrorsAre IsForeseen (expression input e)
  | .field i t, h => (errorsAre_fieldPath (h i (.field t))).bind fun _ _ => errorsAre_pure
  | .literal v _, _ => (errorsAre_encodeLiteral v).bind fun _ _ => errorsAre_pure
  | .call op es t, h =>
    (errorsAre_expressions fun _ he => h.operand he).bind fun operands _ =>
      errorsAre_callExpression (.call op es t) op operands

theorem errorsAre_expressions : ∀ {es : List RowExpr}, (∀ e ∈ es, e.Within input.width) →
    ErrorsAre IsForeseen (expressions input es)
  | [], _ => errorsAre_ok
  | e :: rest, h =>
    (errorsAre_expression (h e (by simp))).bind fun _ _ =>
      (errorsAre_expressions fun d hd => h d (by simp [hd])).bind fun _ _ => errorsAre_pure

end

theorem errorsAre_projectionEntry {name : String} {e : RowExpr} (h : e.Within input.width) :
    ErrorsAre IsForeseen (projectionEntry input name e) := by
  cases e with
  | field i t =>
    refine (errorsAre_fieldName (h i (.field t))).bind fun _ _ => ?_
    split
    · exact errorsAre_pure
    · exact errorsAre_expression h
  | _ => exact errorsAre_expression h

theorem errorsAre_projection {exprs : List (String × RowExpr)}
    (h : ∀ item ∈ exprs, item.2.Within input.width) :
    ErrorsAre IsForeseen (projection exprs input) := by
  have hentries : ErrorsAre IsForeseen (projectionEntries input exprs) := by
    induction exprs with
    | nil => exact errorsAre_ok
    | cons item rest ih =>
      rw [List.forall_mem_cons] at h
      exact (errorsAre_projectionEntry h.1).bind fun _ _ =>
        (ih h.2).bind fun _ _ => errorsAre_pure
  exact hentries.bind fun _ _ => errorsAre_pure

/-! ## Aggregates and sorts -/

theorem errorsAre_argumentPath {call : AggregateCall}
    (h : ∀ a ∈ call.arguments, a < input.width) :
    ErrorsAre IsForeseen (argumentPath input call) := by
  unfold argumentPath
  split
  · rename_i i hi
    exact errorsAre_fieldPath (h i (by simp [hi]))
  · simp [IsForeseen]

theorem errorsAre_accumulator {settings : Settings} {call : AggregateCall}
    (h : ∀ a ∈ call.arguments, a < input.width) :
    ErrorsAre IsForeseen (accumulator settings input call) := by
  have hpath (name : String) : ErrorsAre IsForeseen (pathAccumulator name input call) :=
    (errorsAre_argumentPath h).bind fun _ _ => errorsAre_pure
  unfold accumulator
  split
  · split
    · exact errorsAre_ok
    · exact (errorsAre_argumentPath h).bind fun _ _ => errorsAre_pure
  · exact hpath _
  · exact hpath _
  · exact hpath _
  · exact hpath _
  · exact hpath _
  · split
    · exact hpath _
    · simp [IsForeseen]
  · simp [IsForeseen]

/-- Every call has its output column. -/
theorem errorsAre_accumulators {settings : Settings} {calls : List AggregateCall} {position : Nat}
    (hwidth : position + calls.length ≤ output.width)
    (h : ∀ call ∈ calls, ∀ a ∈ call.arguments, a < input.width) :
    ErrorsAre IsForeseen (accumulators settings output input position calls) := by
  induction calls generalizing position with
  | nil => exact errorsAre_ok
  | cons call rest ih =>
    rw [List.length_cons] at hwidth
    rw [List.forall_mem_cons] at h
    have hname : position < output.width := by omega
    exact (errorsAre_fieldName hname).bind fun _ _ => (errorsAre_accumulator h.1).bind fun _ _ =>
      (ih (by omega) h.2).bind fun _ _ => errorsAre_pure

theorem errorsAre_keyParts {fields : List Nat} (h : ∀ f ∈ fields, f < input.width) :
    ErrorsAre IsForeseen (keyParts input fields) := by
  induction fields with
  | nil => exact errorsAre_ok
  | cons i rest ih =>
    rw [List.forall_mem_cons] at h
    exact (errorsAre_fieldName h.1).bind fun _ _ => (errorsAre_fieldPath h.1).bind fun _ _ =>
      (ih h.2).bind fun _ _ => errorsAre_pure

theorem errorsAre_groupKey {fields : List Nat} (h : ∀ f ∈ fields, f < input.width) :
    ErrorsAre IsForeseen (groupKey input fields) := by
  unfold groupKey
  split
  · exact errorsAre_ok
  · exact (errorsAre_fieldPath (h _ (by simp))).bind fun _ _ => errorsAre_pure
  · exact (errorsAre_keyParts h).bind fun _ _ => errorsAre_pure

theorem errorsAre_sortStages {keys : List Collation} {offset fetch : Option UInt64}
    (h : ∀ key ∈ keys, key.field < input.width) :
    ErrorsAre IsForeseen (sortStages input keys offset fetch) := by
  have hentries : ErrorsAre IsForeseen (sortEntries input keys) := by
    induction keys with
    | nil => exact errorsAre_ok
    | cons key rest ih =>
      rw [List.forall_mem_cons] at h
      exact (errorsAre_fieldName h.1).bind fun _ _ => (ih h.2).bind fun _ _ => errorsAre_pure
  exact hentries.bind fun _ _ => errorsAre_pure

end Fields

/-! ## Plans -/

/-- An operator that fits its input and has the row type `output` over it. -/
theorem errorsAre_operatorStages {settings : Settings} {op : Operator} {convention : Convention}
    {input output : Schema} (hfits : op.Fits convention [input])
    (houtput : op.outputSchema convention [input] = .ok output) :
    ErrorsAre IsForeseen (operatorStages settings op output input) := by
  cases op with
  | filter condition =>
    obtain ⟨_, ⟨⟩, hcondition⟩ := hfits
    have hlowered : ErrorsAre IsForeseen
        ((Predicate.ofCondition input condition).mapError .plan) :=
      (Predicate.errorsAre_ofCondition hcondition.within).mapError fun _ he => he
    exact hlowered.bind fun predicate _ =>
      (errorsAre_filter predicate).bind fun _ _ => errorsAre_pure
  | project exprs =>
    obtain ⟨_, ⟨⟩, hexprs⟩ := hfits
    exact (errorsAre_projection hexprs).bind fun _ _ => errorsAre_pure
  | aggregate fields sets calls =>
    obtain ⟨_, ⟨⟩, hfits⟩ := hfits
    -- The calls take their names from the columns behind the grouped fields.
    have hwidth : fields.length + calls.length ≤ output.width :=
      Nat.le_of_eq (Operator.width_aggregate houtput).symm
    exact (errorsAre_groupKey hfits.fieldsInRange).bind fun _ _ =>
      (errorsAre_accumulators hwidth hfits.argumentsInRange).bind fun _ _ => errorsAre_pure
  | sort keys offset fetch =>
    obtain ⟨_, ⟨⟩, hkeys⟩ := hfits
    obtain rfl := Operator.eq_of_outputSchema (.inr rfl) houtput
    exact errorsAre_sortStages hkeys
  | _ => simp [operatorStages, IsForeseen]

theorem takes_one_of_isLink {kind : OperatorKind} (h : isLink kind = true) :
    kind.takes 1 = true := by
  cases kind <;> simp_all [isLink, OperatorKind.takes]

theorem chain_of_isLink {settings : Settings} {op : Operator} {input : Plan} {schema : Schema}
    {convention : Convention} (h : isLink op.kind = true) :
    chain settings ⟨op, [input], schema, convention⟩ = (do
      let below ← chain settings input
      let stages ← operatorStages settings op schema input.schema
      return { below with stages := below.stages ++ stages }) := by
  cases op <;> simp_all [chain, isLink, Operator.kind]

theorem errorsAre_chain {settings : Settings} {p : Plan} (hp : p.Built) :
    ErrorsAre IsForeseen (chain settings p) := by
  refine hp.chain (motive := fun p => ErrorsAre IsForeseen (chain settings p))
    (fun _ => takes_one_of_isLink) ?_ ?_
  · intro op inputs schema convention h _
    cases op with
    | scan => simp [chain]
    | join | union | values =>
      rcases inputs with _ | ⟨input, _ | _⟩ <;> simp [chain, isLink, Operator.kind, IsForeseen]
    | _ => simp [isLink, Operator.kind] at h
  · intro op input schema convention h hp _ ih
    rw [chain_of_isLink h]
    exact ih.bind fun below _ =>
      (errorsAre_operatorStages hp.fits hp.derived).bind fun _ _ => errorsAre_pure

/-- A built plan for a document store becomes a pipeline, or meets a failure that is foreseen. -/
theorem errorsAre_pipeline {settings : Settings} {p : Plan} (hp : Plan.Built p)
    (hc : p.convention = .document) : ErrorsAre IsForeseen (pipeline settings p) := by
  rw [pipeline, if_pos hc]
  exact errorsAre_chain hp

end Document

end StorePlan
