import StorePlan.Predicate.Lowering
import StorePlan.Proofs.Outcome

/-
Lowering does not read the types that an expression carries: it commutes with
forgetting them (`ofCondition_untyped`), and the message of its error, which
shows the expression, is the same without them. The types that a cast or a
function names are part of its operator and stay.
-/

namespace StorePlan

namespace RowExpr

mutual

/-- The expression without the types of its nodes. -/
def untyped : RowExpr → RowExpr
  | .field i _ => .field i .null
  | .literal v _ => .literal v .null
  | .call op es _ => .call op (allUntyped es) .null
termination_by structural e => e

def allUntyped : List RowExpr → List RowExpr
  | [] => []
  | e :: rest => e.untyped :: allUntyped rest
termination_by structural es => es

end

mutual

@[simp] theorem text_untyped : ∀ e : RowExpr, e.untyped.text = e.text
  | .field .. | .literal .. => rfl
  | .call op es t => by
    have hes := texts_allUntyped es
    cases op with
    | cast target =>
      cases es with
      | nil => rfl
      | cons e rest => simp only [untyped, allUntyped, text, text_untyped e]
    | floor unit | ceil unit => cases unit <;> simp only [untyped, text, hes]
    | _ => simp only [untyped, text, hes]

theorem texts_allUntyped : ∀ es : List RowExpr, texts (allUntyped es) = texts es
  | [] => rfl
  | e :: rest => by rw [allUntyped, texts, texts, text_untyped e, texts_allUntyped rest]

end

@[simp] theorem literal?_untyped (e : RowExpr) : e.untyped.literal? = e.literal? := by
  cases e <;> rfl

@[simp] theorem field?_untyped (e : RowExpr) : e.untyped.field? = e.field? := by
  cases e <;> rfl

end RowExpr

/-- The error without the types in the expression that it shows. -/
def PlanError.untyped : PlanError → PlanError
  | notAPredicate expr => notAPredicate expr.untyped
  | e => e

@[simp] theorem PlanError.message_untyped (e : PlanError) : e.untyped.message = e.message := by
  cases e with
  | notAPredicate expr =>
    exact congrArg ("[A008] Unsupported predicate expression: " ++ ·) expr.text_untyped
  | _ => rfl

theorem mapError_bind {α β ε ε' : Type} {wrap : ε → ε'} (x : Except ε α) (f : α → Except ε β) :
    (x >>= f).mapError wrap = x.mapError wrap >>= fun a => (f a).mapError wrap := by
  cases x <;> rfl

theorem mapError_mapError {α ε ε' ε'' : Type} {wrap : ε → ε'} {wrap' : ε' → ε''}
    (x : Except ε α) : (x.mapError wrap).mapError wrap' = x.mapError (wrap' ∘ wrap) := by
  cases x <;> rfl

namespace Predicate

open RowExpr (allUntyped)

variable (schema : Schema) (whole : RowExpr)

/-! ## Leaves -/

theorem literals_untyped (es : List RowExpr) :
    literals whole.untyped (allUntyped es) =
      (literals whole es).mapError PlanError.untyped := by
  induction es with
  | nil => rfl
  | cons e rest ih =>
    rw [allUntyped, literals, literals, RowExpr.literal?_untyped]
    cases e.literal? with
    | none => rfl
    | some v =>
      simp only [ih, mapError_bind]
      rfl

theorem leaf_untyped (operand : RowExpr) (comparison : Comparison) (negated : Bool)
    (values : List Value) :
    leaf schema whole.untyped operand.untyped comparison negated values =
      (leaf schema whole operand comparison negated values).mapError PlanError.untyped := by
  rw [leaf, leaf, RowExpr.field?_untyped]
  cases operand.field? with
  | none => rfl
  | some i =>
    dsimp only
    cases schema.column? i <;> rfl

theorem orient?_untyped (op : RowOp) (es : List RowExpr) :
    orient? op (allUntyped es) =
      (orient? op es).map fun (operand, op, literal) => (operand.untyped, op, literal.untyped) := by
  match es with
  | [] | [_] | _ :: _ :: _ :: _ => simp [allUntyped, orient?]
  | [left, right] =>
    cases left <;> cases right <;>
      simp [allUntyped, orient?, RowExpr.untyped, Function.comp_def]

theorem ofComparison_untyped (op : RowOp) (es : List RowExpr) :
    ofComparison schema whole.untyped op (allUntyped es) =
      (ofComparison schema whole op es).mapError PlanError.untyped := by
  rw [ofComparison, ofComparison, orient?_untyped]
  cases orient? op es with
  | none => rfl
  | some oriented =>
    obtain ⟨operand, op, literal⟩ := oriented
    have hliterals := literals_untyped whole [literal]
    rw [allUntyped, allUntyped] at hliterals
    simp only [Option.map_some, hliterals, mapError_bind]
    congr 1
    funext values
    cases comparison? op with
    | none => rfl
    | some asked => exact leaf_untyped schema whole operand _ _ values

theorem ofTest_untyped (comparison : Comparison) (enough : Nat → Bool) (es : List RowExpr) :
    ofTest schema whole.untyped comparison enough (allUntyped es) =
      (ofTest schema whole comparison enough es).mapError PlanError.untyped := by
  cases es with
  | nil => rfl
  | cons operand rest =>
    simp only [allUntyped, ofTest, literals_untyped, mapError_bind]
    congr 1
    funext values
    split
    · exact leaf_untyped schema whole operand comparison false values
    · rfl

theorem ofLeaf_untyped (op : RowOp) (es : List RowExpr) :
    ofLeaf schema whole.untyped op (allUntyped es) =
      (ofLeaf schema whole op es).mapError PlanError.untyped := by
  cases op with
  | isNull | isNotNull =>
    match es with
    | [operand] => exact leaf_untyped schema whole operand _ _ _
    | [] | _ :: _ :: _ => rfl
  | isIn | between | like =>
    simp only [ofLeaf]
    exact ofTest_untyped schema whole _ _ es
  | _ => exact ofComparison_untyped schema whole _ es

/-! ## Whole conditions -/

theorem combine_untyped (c : Connective) (ps : List Predicate) :
    combine whole.untyped c ps = (combine whole c ps).mapError PlanError.untyped := by
  cases ps <;> rfl

mutual

/-- Without types an expression is lowered to the same predicate, or fails as it does with
them. -/
theorem ofCondition_untyped : ∀ e : RowExpr,
    ofCondition schema e.untyped = (ofCondition schema e).mapError PlanError.untyped
  | .field .. | .literal .. => rfl
  | .call op es t => by
    have hes := ofConditions_untyped es
    have hwhole : (RowExpr.call op es t).untyped = .call op (allUntyped es) .null := rfl
    cases op with
    | and | or =>
      rw [hwhole, ofCondition, ofCondition, hes, mapError_bind]
      congr 1
      funext ps
      exact combine_untyped (.call _ es t) _ ps
    | not =>
      match es with
      | [e] =>
        simp only [RowExpr.untyped, allUntyped, ofCondition, ofCondition_untyped e, mapError_bind]
        rfl
      | [] | _ :: _ :: _ => rfl
    | _ => exact ofLeaf_untyped schema (.call _ es t) _ es

theorem ofConditions_untyped : ∀ es : List RowExpr,
    ofConditions schema (allUntyped es) =
      (ofConditions schema es).mapError PlanError.untyped
  | [] => rfl
  | e :: rest => by
    rw [allUntyped, ofConditions, ofConditions, ofCondition_untyped e, ofConditions_untyped rest,
      mapError_bind]
    congr 1
    funext p
    rw [mapError_bind]
    rfl

end

end Predicate

end StorePlan
