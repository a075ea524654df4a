import StorePlan.DataType.Record
import StorePlan.Sql.Node

/-
Records of syntax trees: the JSON form that they are exchanged in.
-/

namespace StorePlan.Sql

def Op.record : Op → Json
  | equals => .string "Equals"
  | notEquals => .string "NotEquals"
  | lessThan => .string "LessThan"
  | lessThanOrEqual => .string "LessThanOrEqual"
  | greaterThan => .string "GreaterThan"
  | greaterThanOrEqual => .string "GreaterThanOrEqual"
  | and => .string "And"
  | or => .string "Or"
  | not => .string "Not"
  | isNull => .string "IsNull"
  | isNotNull => .string "IsNotNull"
  | isIn => .string "In"
  | like => .string "Like"
  | between => .string "Between"
  | plus => .string "Plus"
  | minus => .string "Minus"
  | times => .string "Times"
  | divide => .string "Divide"
  | negate => .string "Negate"
  | floor => .string "Floor"
  | ceil => .string "Ceil"
  | count => .string "Count"
  | sum => .string "Sum"
  | sumOrZero => .string "Sum0"
  | min => .string "Min"
  | max => .string "Max"
  | avg => .string "Avg"
  | singleValue => .string "SingleValue"
  | function name => .field "Function" (.string name)

def Literal.record : Literal → Json
  | null => .string "Null"
  | boolean b => .field "Boolean" (.bool b)
  | exact t => .field "Exact" (.string t)
  | approximate t => .field "Approx" (.string t)
  | string s => .field "Char" (.string s)
  | date t => .field "Date" (.string t)
  | time t => .field "Time" (.string t)
  | timestamp t => .field "Timestamp" (.string t)
  | interval t q =>
    .field "Interval" (.object [("value", .string t), ("qualifier", .string q.tag)])
  | unit u => .field "TimeUnit" (.string u.tag)

def SetOperator.tag : SetOperator → String
  | union => "Union"
  | unionAll => "UnionAll"
  | intersect => "Intersect"
  | except => "Except"

def JoinKind.tag : JoinKind → String
  | inner => "Inner"
  | left => "Left"
  | right => "Right"
  | full => "Full"
  | cross => "Cross"

def Layout.tag : Layout → String
  | binary => "Binary"
  | leading => "Prefix"
  | trailing => "Postfix"
  | function => "Function"
  | special => "Special"

namespace Node

mutual

/-- The record of a tree. -/
def record : Node → Json
  | name parts => .field "Identifier" (.strings parts)
  | star => .string "Star"
  | literal l => .field "Literal" l.record
  | call op operands distinct =>
    .field "Call" (.object
      [("kind", op.record), ("operands", .array (records operands)),
       ("distinct", .bool distinct)])
  | cast operand target =>
    .field "Cast" (.object [("expr", operand.record), ("target", target.record)])
  | caseOf subject branches otherwise =>
    .field "Case" (.object
      [("operand", optionRecord subject), ("whens", .array (branchRecords branches)),
       ("else_result", optionRecord otherwise)])
  | parameter index type =>
    .field "DynamicParam" (.object
      [("index", .nat index), ("param_type", .optional DataType.record type)])
  | array items => .field "Array" (.array (records items))
  | window operand partitionBy orderBy =>
    .field "Over" (.object
      [("call", operand.record), ("partition_by", .array (records partitionBy)),
       ("order_by", .array (records orderBy))])
  | aliased operand given =>
    .field "As" (.object [("expr", operand.record), ("alias", .string given)])
  | sortKey operand descending nullsFirst =>
    .field "OrderItem" (.object
      [("expr", operand.record), ("descending", .bool descending),
       ("nulls_first", .optional .bool nullsFirst)])
  | join left right kind condition =>
    .field "Join" (.object
      [("left", left.record), ("right", right.record), ("kind", .string kind.tag),
       ("condition", optionRecord condition)])
  | select block => .field "Select" (selectRecord block)
  | setOperation op left right =>
    .field "SetOp" (.object
      [("kind", .string op.tag), ("left", left.record), ("right", right.record)])
  | values rows => .field "Values" (.array (rowRecords rows))
termination_by structural n => n

def records : List Node → List Json
  | [] => []
  | n :: rest => n.record :: records rest
termination_by structural ns => ns

def rowRecords : List (List Node) → List Json
  | [] => []
  | row :: rest => .array (records row) :: rowRecords rest
termination_by structural rows => rows

def branchRecords : List (Node × Node) → List Json
  | [] => []
  | (condition, result) :: rest =>
    .array [condition.record, result.record] :: branchRecords rest
termination_by structural bs => bs

def optionRecord : Option Node → Json
  | none => .null
  | some n => n.record
termination_by structural n => n

def selectRecord : Select Node → Json
  | ⟨distinct, items, source, condition, groupBy, having, orderBy, offset, fetch⟩ =>
    .object
      [("distinct", .bool distinct), ("select_list", .array (records items)),
       ("from", optionRecord source), ("where_clause", optionRecord condition),
       ("group_by", .array (records groupBy)), ("having", optionRecord having),
       ("order_by", .array (records orderBy)), ("offset", optionRecord offset),
       ("fetch", optionRecord fetch)]
termination_by structural block => block

end

end Node

/-! ## Reading -/

namespace Op

/-- The operators and functions without parts. -/
def plain : List Op :=
  [equals, notEquals, lessThan, lessThanOrEqual, greaterThan, greaterThanOrEqual, and, or, not,
   isNull, isNotNull, isIn, like, between, plus, minus, times, divide, negate, floor, ceil, count,
   sum, sumOrZero, min, max, avg, singleValue]

def ofRecord? (j : Json) : Option Op :=
  match j.case? with
  | some ("Function", some name) => name.string?.map function
  | _ => Json.plain? record plain j

end Op

def Literal.ofRecord? (j : Json) : Option Literal :=
  match j.case? with
  | some ("Boolean", some b) => b.bool?.map boolean
  | some ("Exact", some t) => t.string?.map exact
  | some ("Approx", some t) => t.string?.map approximate
  | some ("Char", some s) => s.string?.map string
  | some ("Date", some t) => t.string?.map date
  | some ("Time", some t) => t.string?.map time
  | some ("Timestamp", some t) => t.string?.map timestamp
  | some ("Interval", some parts) => do
    return interval (← parts.get? "value" Json.string?)
      (← parts.get? "qualifier" IntervalQualifier.ofRecord?)
  | some ("TimeUnit", some u) => (TimeUnit.ofRecord? u).map unit
  | _ => Json.plain? record [null] j

def SetOperator.ofRecord? : Json → Option SetOperator :=
  Json.choice? SetOperator.tag [union, unionAll, intersect, except]

def JoinKind.ofRecord? : Json → Option JoinKind :=
  Json.choice? JoinKind.tag [inner, left, right, full, cross]

/-- A query block of nodes that are read in one way. -/
def Select.ofRecord? {α : Type} (node : Json → Option α) (j : Json) : Option (Select α) := do
  return { distinct := ← j.get? "distinct" Json.bool?
           items := ← j.get? "select_list" (Json.list? node)
           source := ← j.getNullable? "from" node
           condition := ← j.getNullable? "where_clause" node
           groupBy := ← j.get? "group_by" (Json.list? node)
           having := ← j.getNullable? "having" node
           orderBy := ← j.get? "order_by" (Json.list? node)
           offset := ← j.getNullable? "offset" node
           fetch := ← j.getNullable? "fetch" node }

namespace Node

/-- A node other than a star, with a way to read the nodes in it. -/
def ofParts? (node : Json → Option Node) (tag : String) (parts : Json) : Option Node :=
  match tag with
  | "Identifier" => (parts.list? Json.string?).map name
  | "Literal" => (Literal.ofRecord? parts).map literal
  | "Call" => do
    return call (← parts.get? "kind" Op.ofRecord?) (← parts.get? "operands" (Json.list? node))
      (← parts.get? "distinct" Json.bool?)
  | "Cast" => do
    return cast (← parts.get? "expr" node) (← parts.get? "target" DataType.ofRecord?)
  | "Case" => do
    return caseOf (← parts.getNullable? "operand" node)
      (← parts.get? "whens" (Json.list? (Json.pair? node node)))
      (← parts.getNullable? "else_result" node)
  | "DynamicParam" => do
    return parameter (← parts.get? "index" Json.index?)
      (← parts.getNullable? "param_type" DataType.ofRecord?)
  | "Array" => (parts.list? node).map array
  | "Over" => do
    return window (← parts.get? "call" node) (← parts.get? "partition_by" (Json.list? node))
      (← parts.get? "order_by" (Json.list? node))
  | "As" => do return aliased (← parts.get? "expr" node) (← parts.get? "alias" Json.string?)
  | "OrderItem" => do
    return sortKey (← parts.get? "expr" node) (← parts.get? "descending" Json.bool?)
      (← parts.getNullable? "nulls_first" Json.bool?)
  | "Join" => do
    return join (← parts.get? "left" node) (← parts.get? "right" node)
      (← parts.get? "kind" JoinKind.ofRecord?) (← parts.getNullable? "condition" node)
  | "Select" => (Select.ofRecord? node parts).map select
  | "SetOp" => do
    return setOperation (← parts.get? "kind" SetOperator.ofRecord?) (← parts.get? "left" node)
      (← parts.get? "right" node)
  | "Values" => (parts.list? (Json.list? node)).map values
  | _ => none

/-- The tree of a record that is at most so deep. -/
def ofRecordWithin? : Nat → Json → Option Node
  | _, .string tag => Json.plain? record [star] (.string tag)
  | _, .object [(tag, .null)] => Json.plain? record [star] (.string tag)
  | depth + 1, .object [(tag, parts)] => ofParts? (ofRecordWithin? depth) tag parts
  | _, _ => none

/-- The tree of a record. -/
def ofRecord? (j : Json) : Option Node := ofRecordWithin? j.depth j

end Node

end StorePlan.Sql
