import StorePlan.Proofs.Predicate.Failures
import StorePlan.Proofs.Value.Coercion
import StorePlan.Proofs.VectorStore.Draft

/-
Failures of vector requests. A consistent plan fails to become a request only
for what the vector store cannot answer. The invariant of the walk up the
chain is that the draft knows of every column what it holds
(`Drafted.covers`), so that no field of an operator is missing from it.
-/

namespace StorePlan

/-- The failures that a consistent plan may meet on its way to a vector request. -/
def VectorStoreError.IsForeseen : VectorStoreError → Prop
  | operator _ | metric _ | literal _ | expression _ | computedField _ | distance _
  | sortKey _ => True
  | plan e => e.IsForeseen
  | convention _ | coercion _ => False

namespace VectorStore

open VectorStoreError (IsForeseen)

/-! ## Filters -/

theorem Filter.errorsAre_dataOf (type : DataType) (vs : List Value) :
    ErrorsAre IsForeseen (dataOf type vs) := by
  induction vs with
  | nil => exact errorsAre_ok
  | cons v rest ih =>
    refine (v.errorsAre_coerce type _).bind fun w _ => ?_
    have hdatum : ErrorsAre IsForeseen ((Datum.ofValue w).mapError .literal) :=
      errorsAre_mapError fun _ => trivial
    exact hdatum.bind fun _ _ => ih.bind fun _ _ => errorsAre_pure

theorem Filter.errorsAre_ofPredicate : ∀ p : Predicate, ErrorsAre IsForeseen (ofPredicate p)
  | .atomic a =>
    have hleaf : ErrorsAre IsForeseen (ofAtom a) :=
      (errorsAre_dataOf a.type a.values).bind fun _ _ => errorsAre_pure
    hleaf.bind fun _ _ => errorsAre_pure
  | .compound _ left right =>
    (errorsAre_ofPredicate left).bind fun _ _ =>
      (errorsAre_ofPredicate right).bind fun _ _ => errorsAre_pure

namespace Draft

variable {d : Draft} {input : Schema}

theorem Covers.width_storedSchema (h : d.Covers input) :
    (d.storedSchema input).width = input.width := by
  have hcolumns : d.sources.length = input.columns.length := h
  simp [storedSchema, Schema.width, hcolumns]

theorem errorsAre_addFilter {condition : RowExpr} (h : d.Covers input)
    (hcondition : condition.Within input.width) :
    ErrorsAre IsForeseen (d.addFilter condition input) := by
  have hstored : ErrorsAre IsForeseen (d.checkStored condition) := by
    unfold checkStored
    split <;> simp [IsForeseen]
  have hlowered : ErrorsAre IsForeseen
      ((Predicate.ofCondition (d.storedSchema input) condition).mapError .plan) :=
    (Predicate.errorsAre_ofCondition (h.width_storedSchema ▸ hcondition)).mapError fun _ he => he
  unfold addFilter
  split
  · simp [IsForeseen]
  · exact hstored.bind fun _ _ => hlowered.bind fun predicate _ =>
      (Filter.errorsAre_ofPredicate predicate).bind fun _ _ => errorsAre_pure

/-! ## Projections -/

theorem errorsAre_literalComponents (cause : MalformedDistance) (e : RowExpr) :
    ErrorsAre IsForeseen (literalComponents cause e) := by
  unfold literalComponents
  split
  · exact errorsAre_mapError fun _ => trivial
  · simp [IsForeseen]

theorem errorsAre_literalMetric (e : RowExpr) : ErrorsAre IsForeseen (literalMetric e) := by
  unfold literalMetric
  split
  · unfold Metric.ofName
    split <;> simp [IsForeseen]
  · simp [IsForeseen]

theorem errorsAre_searchOf (target query metric : RowExpr) (weights : Option RowExpr) :
    ErrorsAre IsForeseen (d.searchOf target query metric weights) := by
  have hweights : ErrorsAre IsForeseen (weights.mapM (literalComponents .weights)) := by
    cases weights with
    | none => exact errorsAre_ok
    | some e => exact (errorsAre_literalComponents .weights e).bind fun _ _ => errorsAre_pure
  unfold searchOf
  split
  · simp [IsForeseen]
  · exact (errorsAre_literalMetric metric).bind fun _ _ =>
      (errorsAre_literalComponents .query query).bind fun _ _ =>
        hweights.bind fun _ _ => errorsAre_pure

theorem errorsAre_search? (operands : List RowExpr) :
    ErrorsAre IsForeseen (d.search? operands) := by
  unfold search?
  split
  · exact errorsAre_searchOf _ _ _ _
  · exact errorsAre_searchOf _ _ _ _
  · simp [IsForeseen]

theorem errorsAre_projectField {search : Option Search} {e : RowExpr} (h : d.Covers input)
    (he : e.Within input.width) : ErrorsAre IsForeseen (d.projectField input search e) := by
  cases e with
  | field i t =>
    have hi : i < d.sources.length := h ▸ he i (.field t)
    simp [projectField, List.getElem?_eq_getElem hi]
  | literal => simp [projectField, IsForeseen]
  | call op operands t =>
    unfold projectField
    split
    · simp_all
    · split
      · simp [IsForeseen]
      · exact (errorsAre_search? _).bind fun _ _ => errorsAre_pure
    · simp [IsForeseen]

theorem errorsAre_projectFields {exprs : List (String × RowExpr)} {search : Option Search}
    (h : d.Covers input) (hexprs : ∀ item ∈ exprs, item.2.Within input.width) :
    ErrorsAre IsForeseen (d.projectFields input search exprs) := by
  induction exprs generalizing search with
  | nil => exact errorsAre_ok
  | cons item rest ih =>
    rw [List.forall_mem_cons] at hexprs
    exact (errorsAre_projectField h hexprs.1).bind fun _ _ =>
      (ih hexprs.2).bind fun _ _ => errorsAre_pure

theorem errorsAre_project {exprs : List (String × RowExpr)} (h : d.Covers input)
    (hexprs : ∀ item ∈ exprs, item.2.Within input.width) :
    ErrorsAre IsForeseen (d.project exprs input) := by
  unfold project
  split
  · simp [IsForeseen]
  · exact (errorsAre_projectFields h hexprs).bind fun _ _ => errorsAre_pure

/-! ## Plans -/

/-- An operator that fits its input, over a draft that covers the input. -/
theorem errorsAre_add {op : Operator} {convention : Convention} {output : Schema}
    (h : d.Covers input) (hfits : op.Fits convention [input]) :
    ErrorsAre IsForeseen (d.add op output input) := by
  cases op with
  | filter condition =>
    obtain ⟨_, ⟨⟩, hcondition⟩ := hfits
    exact errorsAre_addFilter h hcondition.within
  | project exprs =>
    obtain ⟨_, ⟨⟩, hexprs⟩ := hfits
    exact errorsAre_project h hexprs
  | sort keys offset fetch =>
    simp only [add, sort]
    split <;> simp [IsForeseen]
  | _ => simp [add, IsForeseen]

/-- The walk up a chain fails in foreseen ways only: what is drafted below covers the columns of
the input. -/
theorem errorsAre_ofPlan {p : Plan} (hp : p.Built) : ErrorsAre IsForeseen (ofPlan p) := by
  refine hp.chain (motive := fun p => ErrorsAre IsForeseen (ofPlan p))
    (fun _ => takes_one_of_isLink) ?_ ?_
  · intro op inputs schema convention h _
    cases op with
    | scan table columns => simp [ofPlan]
    | aggregate | join | union | values =>
      rcases inputs with _ | ⟨input, _ | _⟩ <;> simp [ofPlan, isLink, Operator.kind, IsForeseen]
    | _ => simp [isLink, Operator.kind] at h
  · intro op input schema convention h hp hinput ih
    rw [ofPlan_of_isLink h]
    exact ih.bind fun d hd => errorsAre_add (Drafted.of_ofPlan hinput hd).covers hp.fits

end Draft

/-- A built plan for a vector store becomes a request, or meets a failure that is foreseen. -/
theorem errorsAre_request {settings : Settings} {p : Plan} (hp : p.Built)
    (hc : p.convention = .vector) : ErrorsAre IsForeseen (request settings p) := by
  rw [request, if_pos hc]
  exact (Draft.errorsAre_ofPlan hp).bind fun _ _ => errorsAre_pure

end VectorStore

end StorePlan
