import StorePlan.Plan.Error
import StorePlan.Predicate.Basic

/-
Lowering of boolean row expressions to predicates.

Conjunctions and disjunctions of any number of operands become binary trees
that lean to the left, negations are pushed down to the leaves, and a
comparison has a field on one side and a literal on the other; with the
literal on the left it is turned around.
-/

namespace StorePlan.Predicate

/-- The literals among operands; each operand has to be one. -/
def literals (whole : RowExpr) : List RowExpr → Except PlanError (List Value)
  | [] => .ok []
  | e :: rest =>
    match e.literal? with
    | none => .error (.notAPredicate whole)
    | some v => do return v :: (← literals whole rest)

/-- A leaf over the column that an operand refers to. -/
def leaf (schema : Schema) (whole operand : RowExpr) (comparison : Comparison) (negated : Bool)
    (values : List Value) : Except PlanError Predicate :=
  match operand.field? with
  | none => .error (.notAPredicate whole)
  | some i =>
    match schema.column? i with
    | none => .error (.fieldOutOfRange .filter i schema.width)
    | some column => .ok (.atomic ⟨column.name, column.type, comparison, negated, values⟩)

/-- The comparison of a leaf, and whether it is negated. -/
def comparison? : RowOp → Option (Comparison × Bool)
  | .equals => some (.equal, false)
  | .notEquals => some (.equal, true)
  | .lessThan => some (.less, false)
  | .lessThanOrEqual => some (.lessOrEqual, false)
  | .greaterThan => some (.greater, false)
  | .greaterThanOrEqual => some (.greaterOrEqual, false)
  | _ => none

/-- The comparison of a field with a literal, as field, comparison and literal. -/
def orient? (op : RowOp) : List RowExpr → Option (RowExpr × RowOp × RowExpr)
  | [.field i t, right] => some (.field i t, op, right)
  | [left, .field i t] => op.swapped?.map fun op => (.field i t, op, left)
  | _ => none

/-- A leaf for a comparison of two operands. -/
def ofComparison (schema : Schema) (whole : RowExpr) (op : RowOp) (operands : List RowExpr) :
    Except PlanError Predicate :=
  match orient? op operands with
  | none => .error (.notAPredicate whole)
  | some (operand, op, literal) => do
    let values ← literals whole [literal]
    match comparison? op with
    | none => .error (.notAPredicate whole)
    | some (comparison, negated) => leaf schema whole operand comparison negated values

/-- A leaf for a test of the first operand against literals, of which `enough` says how many there
have to be. -/
def ofTest (schema : Schema) (whole : RowExpr) (comparison : Comparison) (enough : Nat → Bool) :
    List RowExpr → Except PlanError Predicate
  | [] => .error (.notAPredicate whole)
  | operand :: rest => do
    let values ← literals whole rest
    if enough values.length then leaf schema whole operand comparison false values
    else .error (.notAPredicate whole)

/-- Predicates under one connective, leaning to the left. -/
def combine (whole : RowExpr) (connective : Connective) :
    List Predicate → Except PlanError Predicate
  | [] => .error (.notAPredicate whole)
  | p :: rest => .ok (rest.foldl (compound connective) p)

/-- A leaf for an operator that is no connective. -/
def ofLeaf (schema : Schema) (whole : RowExpr) (op : RowOp) (operands : List RowExpr) :
    Except PlanError Predicate :=
  match op with
  | .isNull | .isNotNull =>
    match operands with
    | [operand] =>
      leaf schema whole operand (if op = .isNull then .isNull else .isNotNull) false []
    | _ => .error (.notAPredicate whole)
  | .isIn => ofTest schema whole .isIn (0 < ·) operands
  | .between => ofTest schema whole .between (· == 2) operands
  | .like => ofTest schema whole .like (· == 1) operands
  | op => ofComparison schema whole op operands

mutual

/-- The predicate that a boolean row expression over a row type amounts to. -/
def ofCondition (schema : Schema) : RowExpr → Except PlanError Predicate
  | .call .and es t => do
    let ps ← ofConditions schema es
    combine (.call .and es t) .and ps
  | .call .or es t => do
    let ps ← ofConditions schema es
    combine (.call .or es t) .or ps
  -- No predicate has a negation at its top: it goes down to the leaves at once.
  | .call .not [e] _ => do return (← ofCondition schema e).negate
  | .call .not es t => .error (.notAPredicate (.call .not es t))
  | .call op es t => ofLeaf schema (.call op es t) op es
  | e => .error (.notAPredicate e)
termination_by structural e => e

def ofConditions (schema : Schema) : List RowExpr → Except PlanError (List Predicate)
  | [] => .ok []
  | e :: rest => do
    let p ← ofCondition schema e
    return p :: (← ofConditions schema rest)
termination_by structural es => es

end

end StorePlan.Predicate
