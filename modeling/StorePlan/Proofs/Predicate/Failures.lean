import StorePlan.Predicate.Lowering
import StorePlan.Proofs.Plan.Checks

/-
Lowering a condition fails only on conditions that no predicate stands for:
over a row type that has every field of the condition, no column is missing.
-/

namespace StorePlan

theorem RowExpr.Within.operand {op : RowOp} {es : List RowExpr} {t : DataType} {width : Nat}
    {e : RowExpr} (h : (RowExpr.call op es t).Within width) (he : e ∈ es) : e.Within width :=
  fun i hi => h i (.operand he hi)

/-- The one failure that a consistent plan may still meet: no predicate says what its condition
does. -/
def PlanError.IsForeseen : PlanError → Prop
  | notAPredicate _ => True
  | _ => False

namespace Predicate

variable {schema : Schema} {whole : RowExpr}

theorem errorsAre_literals (es : List RowExpr) :
    ErrorsAre PlanError.IsForeseen (literals whole es) := by
  induction es with
  | nil => exact errorsAre_ok
  | cons e rest ih =>
    unfold literals
    split
    · simp [PlanError.IsForeseen]
    · exact ih.bind fun _ _ => errorsAre_pure

theorem errorsAre_leaf {operand : RowExpr} (h : operand.Within schema.width)
    (comparison : Comparison) (negated : Bool) (values : List Value) :
    ErrorsAre PlanError.IsForeseen (leaf schema whole operand comparison negated values) := by
  cases operand with
  | field i t =>
    obtain ⟨c, hc⟩ := Schema.exists_column? (h i (.field t))
    simp [leaf, RowExpr.field?, hc]
  | _ => simp [leaf, RowExpr.field?, PlanError.IsForeseen]

theorem mem_of_orient? {op swapped : RowOp} {es : List RowExpr} {operand literal : RowExpr}
    (h : orient? op es = some (operand, swapped, literal)) : operand ∈ es := by
  unfold orient? at h
  split at h
  · simp_all
  · obtain ⟨_, -, heq⟩ := Option.map_eq_some_iff.1 h
    simp_all
  · cases h

theorem errorsAre_ofComparison {op : RowOp} {es : List RowExpr}
    (h : ∀ e ∈ es, e.Within schema.width) :
    ErrorsAre PlanError.IsForeseen (ofComparison schema whole op es) := by
  unfold ofComparison
  split
  · simp [PlanError.IsForeseen]
  · rename_i operand op literal horient
    refine (errorsAre_literals _).bind fun values _ => ?_
    split
    · simp [PlanError.IsForeseen]
    · exact errorsAre_leaf (h operand (mem_of_orient? horient)) _ _ _

theorem errorsAre_ofTest {comparison : Comparison} {enough : Nat → Bool} {es : List RowExpr}
    (h : ∀ e ∈ es, e.Within schema.width) :
    ErrorsAre PlanError.IsForeseen (ofTest schema whole comparison enough es) := by
  cases es with
  | nil => simp [ofTest, PlanError.IsForeseen]
  | cons operand rest =>
    refine (errorsAre_literals rest).bind fun values _ => ?_
    split
    · exact errorsAre_leaf (h operand (by simp)) _ _ _
    · simp [PlanError.IsForeseen]

theorem errorsAre_ofLeaf {op : RowOp} {es : List RowExpr} (h : ∀ e ∈ es, e.Within schema.width) :
    ErrorsAre PlanError.IsForeseen (ofLeaf schema whole op es) := by
  unfold ofLeaf
  split
  · split
    · exact errorsAre_leaf (h _ (by simp)) _ _ _
    · simp [PlanError.IsForeseen]
  · split
    · exact errorsAre_leaf (h _ (by simp)) _ _ _
    · simp [PlanError.IsForeseen]
  · exact errorsAre_ofTest h
  · exact errorsAre_ofTest h
  · exact errorsAre_ofTest h
  · exact errorsAre_ofComparison h

theorem errorsAre_combine (connective : Connective) (ps : List Predicate) :
    ErrorsAre PlanError.IsForeseen (combine whole connective ps) := by
  cases ps <;> simp [combine, PlanError.IsForeseen]

mutual

theorem errorsAre_ofCondition : ∀ {e : RowExpr}, e.Within schema.width →
    ErrorsAre PlanError.IsForeseen (ofCondition schema e)
  | .field _ _, _ | .literal _ _, _ => by simp [ofCondition, PlanError.IsForeseen]
  | .call op es t, h => by
    have hes : ∀ e ∈ es, e.Within schema.width := fun e he => h.operand he
    cases op with
    | and | or =>
      simp only [ofCondition]
      exact (errorsAre_ofConditions hes).bind fun ps _ => errorsAre_combine _ ps
    | not =>
      match es with
      | [e] =>
        simp only [ofCondition]
        exact (errorsAre_ofCondition (hes e (by simp))).bind fun _ _ => errorsAre_pure
      | [] | _ :: _ :: _ => simp [ofCondition, PlanError.IsForeseen]
    | _ => exact errorsAre_ofLeaf hes

theorem errorsAre_ofConditions : ∀ {es : List RowExpr}, (∀ e ∈ es, e.Within schema.width) →
    ErrorsAre PlanError.IsForeseen (ofConditions schema es)
  | [], _ => errorsAre_ok
  | e :: rest, h => by
    refine (errorsAre_ofCondition (h e (by simp))).bind fun p _ => ?_
    exact (errorsAre_ofConditions fun d hd => h d (by simp [hd])).bind fun _ _ => errorsAre_pure

end

end Predicate

end StorePlan
