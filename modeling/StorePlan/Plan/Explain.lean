import StorePlan.Plan.Error

/-
The explanation of a plan: one line a node, inputs below their node and
indented by two blanks more.
-/

namespace StorePlan

open Text

def Collation.text (c : Collation) : String :=
  natText c.field ++ (if c.descending then " DESC" else "") ++
    match c.nulls with
    | .first => " NULLS FIRST"
    | .last => " NULLS LAST"
    | .unspecified => ""

namespace Operator

/-- Results of calls with the names of their columns. -/
def callsText (calls : List AggregateCall) (columns : List Column) : String :=
  String.join ((calls.zip columns).map fun (call, column) =>
    ", " ++ column.name ++ "=[" ++ call.text ++ "]")

/-- The payload of an operator; the row type names the columns of calls. -/
def detailText (schema : Schema) : Operator → String
  | scan table _ => "table=[" ++ table ++ "]"
  | filter condition => "condition=[" ++ condition.text ++ "]"
  | project exprs =>
    ", ".intercalate (exprs.map fun (name, e) => name ++ "=[" ++ e.text ++ "]")
  | aggregate fields _ calls =>
    "group=[\x7b" ++ ", ".intercalate (fields.map natText) ++ "\x7d]" ++
      callsText calls (schema.columns.drop fields.length)
  | join type condition =>
    "condition=[" ++ condition.text ++ "], joinType=[" ++ type.text ++ "]"
  | sort keys offset fetch =>
    let limit (name : String) : Option UInt64 → String
      | some n => ", " ++ name ++ "=[" ++ natText n.toNat ++ "]"
      | none => ""
    "sort=[" ++ ", ".intercalate (keys.map Collation.text) ++ "]" ++ limit "offset" offset ++
      limit "fetch" fetch
  | union all => "all=[" ++ (if all then "true" else "false") ++ "]"
  | values _ rows => "tuples=[" ++ natText rows.length ++ "]"

end Operator

namespace Plan

mutual

/-- The lines of a plan at an indentation. -/
def explainAt (depth : Nat) : Plan → String
  | ⟨op, inputs, schema, _⟩ =>
    String.ofList (List.replicate (2 * depth) ' ') ++ op.kind.name ++ "(" ++
      op.detailText schema ++ ")\n" ++ explainAllAt (depth + 1) inputs
termination_by structural p => p

def explainAllAt (depth : Nat) : List Plan → String
  | [] => ""
  | p :: rest => explainAt depth p ++ explainAllAt depth rest
termination_by structural ps => ps

end

/-- The explanation of a plan. -/
def explain (p : Plan) : String := p.explainAt 0

end Plan

end StorePlan
