import StorePlan.Plan.Error
import StorePlan.Predicate.Basic
import StorePlan.Document.Encoding

/-
Why a plan, a predicate or an expression has no form in a document store.
-/

namespace StorePlan

/-- Causes of failure. -/
inductive DocumentError where
  | operator (kind : OperatorKind)
  /-- The function has no accumulator. -/
  | noAccumulator (function : AggregateFunction)
  /-- The function has an accumulator, for one argument. -/
  | accumulatorArguments (call : AggregateCall)
  | expression (expr : RowExpr)
  /-- A leaf whose literals do not fit its comparison. -/
  | malformedAtom (atom : Atom)
  | literal (value : Value)
  | convention (found : Convention)
  | plan (error : PlanError)
  | coercion (error : CoercionError)

namespace DocumentError

/-- The message of an error. -/
def message : DocumentError → String
  | operator kind =>
    "[D001] Operator " ++ kind.name ++ " cannot be compiled into a pipeline stage"
  | noAccumulator function =>
    "[D002] Aggregate function " ++ function.name ++ " has no pipeline accumulator"
  | accumulatorArguments call =>
    "[D002] Aggregate function " ++ call.text ++ " has no pipeline accumulator"
  | expression expr =>
    "[D003] Expression " ++ expr.text ++ " cannot be compiled into a pipeline expression"
  | malformedAtom atom =>
    "[D003] Expression " ++ atom.text ++ " cannot be compiled into a pipeline expression"
  | literal value => "[D004] Literal " ++ value.text ++ " has no document encoding"
  | convention found =>
    "[D005] Plan has convention '" ++ found.text ++ "', expected 'DOCUMENT'"
  | plan error => "[D006] Algebra error: " ++ error.message
  | coercion error => "[D007] Core error: " ++ error.message

end DocumentError

namespace Document

/-- What a document store's emitters compute. -/
abbrev Emit := Except DocumentError

/-- The document value of a literal. -/
def encodeLiteral (v : Value) : Emit Json :=
  (encode v).mapError fun e => .literal e.value

def encodeLiterals (vs : List Value) : Emit (List Json) :=
  (encodeAll vs).mapError fun e => .literal e.value

end Document

end StorePlan
