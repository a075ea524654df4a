import StorePlan.Proofs.Truth
import StorePlan.RowExpr.Basic

/-
The value of a row expression on a row, by three-valued logic. How values
compare is left open, as is every operator that is not boolean; only that a
comparison may be turned around is fixed.
-/

namespace StorePlan

/-- How values compare, and what operators yield that are not boolean. -/
structure Interpretation where
  equal : Value → Value → Truth
  less : Value → Value → Truth
  lessOrEqual : Value → Value → Truth
  greater : Value → Value → Truth
  greaterOrEqual : Value → Value → Truth
  like : Value → Value → Truth
  scalar : RowOp → List Value → Value
  equal_symm : ∀ a b, equal a b = equal b a
  less_mirror : ∀ a b, less a b = greater b a
  lessOrEqual_mirror : ∀ a b, lessOrEqual a b = greaterOrEqual b a

namespace Interpretation

variable (I : Interpretation)

/-- A value equals one of several. -/
def isIn (v : Value) (ws : List Value) : Truth := .any (ws.map (I.equal v))

/-- A value lies in a range, ends included. -/
def between (v low high : Value) : Truth := (I.greaterOrEqual v low).and (I.lessOrEqual v high)

/-- The truth of a boolean operator over the values of its operands; unknown for a number of
operands that the operator does not have. -/
def truth : RowOp → List Value → Truth
  | .equals, [v, w] => I.equal v w
  | .notEquals, [v, w] => (I.equal v w).not
  | .lessThan, [v, w] => I.less v w
  | .lessThanOrEqual, [v, w] => I.lessOrEqual v w
  | .greaterThan, [v, w] => I.greater v w
  | .greaterThanOrEqual, [v, w] => I.greaterOrEqual v w
  | .and, vs => .all (vs.map Value.truth)
  | .or, vs => .any (vs.map Value.truth)
  | .not, [v] => v.truth.not
  | .isNull, [v] => .ofBool v.isNull
  | .isNotNull, [v] => .ofBool !v.isNull
  | .isIn, v :: ws => I.isIn v ws
  | .like, [v, w] => I.like v w
  | .between, [v, low, high] => I.between v low high
  | _, _ => .unknown

/-- The value of an operator over the values of its operands. -/
def apply (op : RowOp) (vs : List Value) : Value :=
  if op.isBoolean then (I.truth op vs).value else I.scalar op vs

@[simp] theorem truth_apply {op : RowOp} (h : op.isBoolean = true) (vs : List Value) :
    (I.apply op vs).truth = I.truth op vs := by
  simp [apply, h]

end Interpretation

namespace RowExpr

mutual

/-- The value of an expression on a row; a field beyond the row is `NULL`. -/
def value (I : Interpretation) (row : List Value) : RowExpr → Value
  | .field i _ => row[i]?.getD .null
  | .literal v _ => v
  | .call op es _ => I.apply op (values I row es)
termination_by structural e => e

def values (I : Interpretation) (row : List Value) : List RowExpr → List Value
  | [] => []
  | e :: rest => e.value I row :: values I row rest
termination_by structural es => es

end

/-- The truth of a condition on a row. -/
def truth (I : Interpretation) (row : List Value) (e : RowExpr) : Truth := (e.value I row).truth

theorem truth_call {I : Interpretation} {row : List Value} {op : RowOp} {es : List RowExpr}
    {t : DataType} (h : op.isBoolean = true) :
    (call op es t).truth I row = I.truth op (values I row es) := by
  rw [truth, value, I.truth_apply h]

theorem map_truth_values (I : Interpretation) (row : List Value) (es : List RowExpr) :
    (values I row es).map Value.truth = es.map (truth I row) := by
  induction es with
  | nil => rfl
  | cons e rest ih => simp only [values, List.map_cons, ih, truth]

end RowExpr

end StorePlan
