import StorePlan.Plan.Error
import StorePlan.Value.Coercion
import StorePlan.RowExpr.Structure
import StorePlan.VectorStore.Datum

/-
Why a plan or a predicate is no request that a vector store can answer.
-/

namespace StorePlan

open Text

/-- What a distance call lacks. -/
inductive MalformedDistance where
  | operandCount (actual : Nat)
  /-- The first operand is no stored attribute. -/
  | target
  /-- The metric is no string literal. -/
  | metric
  /-- The query vector is no array literal. -/
  | query
  /-- The weights are no array literal. -/
  | weights
  /-- The chain has a distance call already. -/
  | repeated
deriving DecidableEq

def MalformedDistance.message : MalformedDistance → String
  | operandCount actual => "DISTANCE takes 3 or 4 operands, got " ++ natText actual
  | target => "first operand must be a stored attribute"
  | metric => "metric must be a string literal"
  | query => "query must be an array literal"
  | weights => "weights must be an array literal"
  | repeated => "more than one DISTANCE call"

/-- Causes of failure. -/
inductive VectorStoreError where
  | operator (kind : OperatorKind)
  | metric (name : String)
  | literal (cause : VectorStore.UnsendableValue)
  /-- Only fields and distance calls can be projected. -/
  | expression (expr : RowExpr)
  /-- A filter refers to a field that is not stored. -/
  | computedField (index : Nat)
  | distance (cause : MalformedDistance)
  /-- The store orders by ascending distance only. -/
  | sortKey (name : String)
  | convention (found : Convention)
  | plan (error : PlanError)
  | coercion (error : CoercionError)

namespace VectorStoreError

/-- The message of an error. -/
def message : VectorStoreError → String
  | operator kind =>
    "[V001] Operator " ++ kind.name ++ " cannot be compiled into a vector request"
  | metric name => "[V002] Unknown distance metric: " ++ name
  | literal cause =>
    "[V003] Literal " ++ cause.value.text ++ " cannot be sent to the vector store: " ++
      cause.reason
  | expression expr =>
    "[V004] Expression " ++ expr.structure.text ++ " cannot be projected by the vector store"
  | computedField index =>
    "[V004] Expression filter on computed field $" ++ natText index ++
      " cannot be projected by the vector store"
  | distance cause => "[V005] Invalid kNN request: " ++ cause.message
  | sortKey name =>
    "[V006] Cannot sort on field '" ++ name ++ "'; only ascending distance order is supported"
  | convention found =>
    "[V007] Plan has convention '" ++ found.text ++ "', expected 'VECTOR'"
  | plan error => "[V008] Algebra error: " ++ error.message
  | coercion error => "[V009] Core error: " ++ error.message

end VectorStoreError

namespace VectorStore

/-- What a vector store's emitters compute. -/
abbrev Emit := Except VectorStoreError

end VectorStore

end StorePlan
