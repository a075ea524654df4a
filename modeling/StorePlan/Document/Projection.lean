import StorePlan.Document.Error

/-
Expressions over documents, and the bodies of `$project` stages.
-/

namespace StorePlan.Document

/-- The name of an input field. -/
def fieldName (schema : Schema) (index : Nat) : Emit String :=
  match schema.column? index with
  | some column => .ok column.name
  | none => .error (.plan (.fieldOutOfRange .project index schema.width))

/-- The path of an input field: a dollar sign and its name. -/
def fieldPath (schema : Schema) (index : Nat) : Emit String := do
  return "$" ++ (← fieldName schema index)

/-- The operators that take their operands as a list. -/
def listOperator? : RowOp → Option String
  | .plus => some "$add"
  | .minus => some "$subtract"
  | .times => some "$multiply"
  | .divide => some "$divide"
  | .equals => some "$eq"
  | .notEquals => some "$ne"
  | .lessThan => some "$lt"
  | .lessThanOrEqual => some "$lte"
  | .greaterThan => some "$gt"
  | .greaterThanOrEqual => some "$gte"
  | .and => some "$and"
  | .or => some "$or"
  | .not => some "$not"
  | .floor none => some "$floor"
  | .ceil none => some "$ceil"
  | _ => none

/-- A call over translated operands; tests for `NULL` compare their one operand with it. -/
def callExpression (whole : RowExpr) (op : RowOp) (operands : List Json) : Emit Json :=
  match op, operands with
  | .isNull, [operand] => .ok (.field "$eq" (.array [operand, .null]))
  | .isNotNull, [operand] => .ok (.field "$ne" (.array [operand, .null]))
  | op, operands =>
    match listOperator? op with
    | some name => .ok (.field name (.array operands))
    | none => .error (.expression whole)

mutual

/-- The expression of a row expression over documents with these fields. -/
def expression (input : Schema) : RowExpr → Emit Json
  | .field i _ => do return .string (← fieldPath input i)
  | .literal v _ => do return .field "$literal" (← encodeLiteral v)
  | .call op es t => do
    let operands ← expressions input es
    callExpression (.call op es t) op operands
termination_by structural e => e

def expressions (input : Schema) : List RowExpr → Emit (List Json)
  | [] => .ok []
  | e :: rest => do
    let j ← expression input e
    return j :: (← expressions input rest)
termination_by structural es => es

end

/-- The entry of a named expression: `1` for a field under its own name, else the expression. -/
def projectionEntry (input : Schema) (name : String) (e : RowExpr) : Emit Json :=
  match e.field? with
  | some i => do
    if (← fieldName input i) = name then return .integer 1 else expression input e
  | none => expression input e

/-- The entries of named expressions, in order. -/
def projectionEntries (input : Schema) :
    List (String × RowExpr) → Emit (List (String × Json))
  | [] => .ok []
  | (name, e) :: rest => do
    let entry ← projectionEntry input name e
    return (name, entry) :: (← projectionEntries input rest)

/-- The body of a `$project` stage. A name that comes again replaces its earlier entry. -/
def projection (exprs : List (String × RowExpr)) (input : Schema) : Emit Json := do
  return .ofFields (← projectionEntries input exprs)

end StorePlan.Document
