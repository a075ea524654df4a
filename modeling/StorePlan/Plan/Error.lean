import StorePlan.Plan.Basic

/-
Why a plan cannot be built, or a condition not be lowered.
-/

namespace StorePlan

open Text

/-- Causes of failure. -/
inductive PlanError where
  /-- The store has no aggregates over distinct arguments. -/
  | distinctAggregate (convention : Convention) (call : AggregateCall)
  /-- The store groups rows in one way only. -/
  | unsupportedGrouping (convention : Convention) (grouping : Grouping)
  | inputCount (kind : OperatorKind) (actual : Nat)
  | foreignInput (kind : OperatorKind) (convention input : Convention)
  /-- A node was to be copied with a payload of another kind. -/
  | otherKind (expected actual : OperatorKind)
  | fieldOutOfRange (kind : OperatorKind) (field width : Nat)
  | conditionType (kind : OperatorKind) (found : DataType)
  | rowWidth (row actual expected : Nat)
  | rowValue (row : Nat) (value : Value) (column : Column)
  | unionWidth (input actual expected : Nat)
  | unionType (input : Nat) (column : Column) (found : DataType)
  /-- The expression is no boolean combination of comparisons with literals. -/
  | notAPredicate (expr : RowExpr)
  | noGroupingSets
  | groupingSetOutside (set fields : List Nat)
  | argumentCount (function : AggregateFunction) (actual : Nat)

/-- Field numbers in brackets. -/
def fieldsText (fields : List Nat) : String :=
  "[" ++ ", ".intercalate (fields.map natText) ++ "]"

namespace PlanError

/-- The message of an error. -/
def message : PlanError → String
  | distinctAggregate convention call =>
    "[A001] Unsupported aggregate for convention '" ++ convention.text ++
      "': distinct aggregation " ++ call.text
  | unsupportedGrouping convention grouping =>
    "[A001] Unsupported aggregate for convention '" ++ convention.text ++ "': " ++
      grouping.text ++ " grouping"
  | inputCount kind actual =>
    "[A002] " ++ kind.name ++ " expects " ++ kind.inputsText ++ " input(s), got " ++
      natText actual
  | foreignInput kind convention input =>
    "[A003] Convention mismatch: " ++ kind.name ++ " is '" ++ convention.text ++
      "' but its input is '" ++ input.text ++ "'"
  | otherKind expected actual =>
    "[A004] Cannot copy " ++ expected.name ++ " with a " ++ actual.name ++ " payload"
  | fieldOutOfRange kind field width =>
    "[A005] " ++ kind.name ++ " references field $" ++ natText field ++ " but input has " ++
      natText width ++ " field(s)"
  | conditionType kind found =>
    "[A006] " ++ kind.name ++ " condition must be BOOLEAN, found " ++ found.text
  | rowWidth row actual expected =>
    "[A007] Row type mismatch in Values: row " ++ natText row ++ " has " ++ natText actual ++
      " value(s), row type has " ++ natText expected
  | rowValue row value column =>
    "[A007] Row type mismatch in Values: row " ++ natText row ++ " value " ++ value.text ++
      " does not match " ++ column.name ++ " " ++ column.type.text
  | unionWidth input actual expected =>
    "[A007] Row type mismatch in Union: input " ++ natText input ++ " has " ++
      natText actual ++ " field(s), input 0 has " ++ natText expected
  | unionType input column found =>
    "[A007] Row type mismatch in Union: field " ++ column.name ++ " is " ++ column.type.text ++
      " in input 0 but " ++ found.text ++ " in input " ++ natText input
  | notAPredicate expr => "[A008] Unsupported predicate expression: " ++ expr.text
  | noGroupingSets => "[A009] Invalid grouping sets: at least one grouping set is required"
  | groupingSetOutside set fields =>
    "[A009] Invalid grouping sets: " ++ fieldsText set ++ " is not a subset of the group set " ++
      fieldsText fields
  | argumentCount function actual =>
    "[A010] Aggregate " ++ function.name ++ " expects " ++ function.arity.text ++
      " argument(s), got " ++ natText actual

end PlanError

end StorePlan
