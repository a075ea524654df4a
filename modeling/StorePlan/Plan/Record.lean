import StorePlan.Plan.Basic
import StorePlan.RowExpr.Record

/-
Records of plans.
-/

namespace StorePlan

def Column.record (c : Column) : Json :=
  .object [("name", .string c.name), ("poly_type", c.type.record), ("nullable", .bool c.nullable)]

def Schema.record (s : Schema) : Json :=
  .field "columns" (.array (s.columns.map Column.record))

def Convention.record : Convention → Json
  | logical => .string "Logical"
  | sql store => .field "Sql" (.field "store" (.string store))
  | document => .string "Document"
  | vector => .string "Vector"

def AggregateFunction.record : AggregateFunction → Json
  | count => .string "Count"
  | sum => .string "Sum"
  | sumOrZero => .string "SumEmptyIsZero"
  | min => .string "Min"
  | max => .string "Max"
  | avg => .string "Avg"
  | singleValue => .string "SingleValue"
  | other name t => .field "Other" (.object [("name", .string name), ("return_type", t.record)])

def fieldsRecord (fields : List Nat) : Json := .array (fields.map .nat)

def AggregateCall.record (c : AggregateCall) : Json :=
  .object
    [("function", c.function.record), ("args", fieldsRecord c.arguments),
     ("distinct", .bool c.distinct), ("name", .optional .string c.name)]

def JoinType.tag : JoinType → String
  | inner => "Inner"
  | left => "Left"
  | right => "Right"
  | full => "Full"

def NullPlacement.tag : NullPlacement → String
  | first => "First"
  | last => "Last"
  | unspecified => "Unspecified"

def Collation.record (c : Collation) : Json :=
  .object
    [("field", .nat c.field),
     ("direction", .string (if c.descending then "Descending" else "Ascending")),
     ("nulls", .string c.nulls.tag)]

def Operator.record : Operator → Json
  | scan table schema =>
    .field "Scan" (.object [("table", .string table), ("schema", schema.record)])
  | filter condition => .field "Filter" (.field "condition" condition.record)
  | project exprs =>
    .field "Project" (.field "exprs" (.array (exprs.map fun (name, e) =>
      .array [.string name, e.record])))
  | aggregate fields sets calls =>
    .field "Aggregate" (.object
      [("group_set", fieldsRecord fields),
       ("group_sets", .optional (fun sets => .array (sets.map fieldsRecord)) sets),
       ("calls", .array (calls.map AggregateCall.record))])
  | join type condition =>
    .field "Join" (.object
      [("join_type", .string type.tag), ("condition", condition.record)])
  | sort keys offset fetch =>
    .field "Sort" (.object
      [("collation", .array (keys.map Collation.record)),
       ("offset", .optional (fun n => .nat n.toNat) offset),
       ("fetch", .optional (fun n => .nat n.toNat) fetch)])
  | union all => .field "Union" (.field "all" (.bool all))
  | values schema rows =>
    .field "Values" (.object
      [("schema", schema.record),
       ("tuples", .array (rows.map fun row => .array (Value.records row)))])

mutual

/-- The record of a plan. -/
def Plan.record : Plan → Json
  | ⟨op, inputs, schema, convention⟩ =>
    .object
      [("op", op.record), ("inputs", .array (Plan.records inputs)),
       ("schema", schema.record), ("convention", convention.record)]
termination_by structural p => p

def Plan.records : List Plan → List Json
  | [] => []
  | p :: rest => p.record :: Plan.records rest
termination_by structural ps => ps

end

/-! ## Reading -/

def Column.ofRecord? (j : Json) : Option Column := do
  return ⟨← j.get? "name" Json.string?, ← j.get? "poly_type" DataType.ofRecord?,
    ← j.get? "nullable" Json.bool?⟩

def Schema.ofRecord? (j : Json) : Option Schema :=
  (j.get? "columns" (Json.list? Column.ofRecord?)).map Schema.mk

def Convention.ofRecord? (j : Json) : Option Convention :=
  match j.case? with
  | some ("Sql", some parts) => (parts.get? "store" Json.string?).map sql
  | _ => Json.plain? record [logical, document, vector] j

def AggregateFunction.ofRecord? (j : Json) : Option AggregateFunction :=
  match j.case? with
  | some ("Other", some parts) => do
    return other (← parts.get? "name" Json.string?)
      (← parts.get? "return_type" DataType.ofRecord?)
  | _ => Json.plain? record [count, sum, sumOrZero, min, max, avg, singleValue] j

/-- Field numbers. -/
def fieldsOfRecord? : Json → Option (List Nat) := Json.list? Json.index?

def AggregateCall.ofRecord? (j : Json) : Option AggregateCall := do
  return ⟨← j.get? "function" AggregateFunction.ofRecord?, ← j.get? "args" fieldsOfRecord?,
    ← j.get? "distinct" Json.bool?, ← j.getNullable? "name" Json.string?⟩

def JoinType.ofRecord? : Json → Option JoinType :=
  Json.choice? JoinType.tag [inner, left, right, full]

def NullPlacement.ofRecord? : Json → Option NullPlacement :=
  Json.choice? NullPlacement.tag [first, last, unspecified]

def Collation.ofRecord? (j : Json) : Option Collation := do
  let descending ← j.get? "direction"
    (Json.choice? (fun d => if d then "Descending" else "Ascending") [false, true])
  return ⟨← j.get? "field" Json.index?, descending, ← j.get? "nulls" NullPlacement.ofRecord?⟩

/-- A named expression. -/
def namedOfRecord? (read : Json → Option RowExpr) : Json → Option (String × RowExpr) :=
  Json.pair? Json.string? read

def Operator.ofRecord? (j : Json) : Option Operator := do
  let (tag, some parts) ← j.case? | none
  match tag with
  | "Scan" => return scan (← parts.get? "table" Json.string?) (← parts.get? "schema" Schema.ofRecord?)
  | "Filter" => return filter (← parts.get? "condition" RowExpr.ofRecord?)
  | "Project" =>
    return project (← parts.get? "exprs" (Json.list? (namedOfRecord? RowExpr.ofRecord?)))
  | "Aggregate" =>
    return aggregate (← parts.get? "group_set" fieldsOfRecord?)
      (← parts.getNullable? "group_sets" (Json.list? fieldsOfRecord?))
      (← parts.get? "calls" (Json.list? AggregateCall.ofRecord?))
  | "Join" =>
    return join (← parts.get? "join_type" JoinType.ofRecord?)
      (← parts.get? "condition" RowExpr.ofRecord?)
  | "Sort" =>
    return sort (← parts.get? "collation" (Json.list? Collation.ofRecord?))
      (← parts.getNullable? "offset" Json.uint64?) (← parts.getNullable? "fetch" Json.uint64?)
  | "Union" => return union (← parts.get? "all" Json.bool?)
  | "Values" =>
    return values (← parts.get? "schema" Schema.ofRecord?)
      (← parts.get? "tuples" (Json.list? (Json.list? Value.ofRecord?)))
  | _ => none

namespace Plan

/-- The plan of a record that is at most so deep. -/
def ofRecordWithin? : Nat → Json → Option Plan
  | 0, _ => none
  | depth + 1, j => do
    return ⟨← j.get? "op" Operator.ofRecord?,
      ← j.get? "inputs" (Json.list? (ofRecordWithin? depth)),
      ← j.get? "schema" Schema.ofRecord?, ← j.get? "convention" Convention.ofRecord?⟩

/-- The plan of a record, which is taken as it is, whether it is consistent or not. -/
def ofRecord? (j : Json) : Option Plan := ofRecordWithin? j.depth j

end Plan

end StorePlan
