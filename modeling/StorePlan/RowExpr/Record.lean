import StorePlan.DataType.Record
import StorePlan.RowExpr.Basic

/-
Records of values and row expressions. Numbers are JSON numbers of their own
width; decimals, dates and times are texts.
-/

namespace StorePlan

mutual

/-- The record of a value. -/
def Value.record : Value → Json
  | .null => .string "Null"
  | .boolean b => .field "Boolean" (.bool b)
  | .tinyInt i => .field "TinyInt" (.integer i.toInt)
  | .smallInt i => .field "SmallInt" (.integer i.toInt)
  | .integer i => .field "Integer" (.integer i.toInt)
  | .bigInt i => .field "BigInt" (.integer i.toInt)
  | .decimal d => .field "Decimal" (.string d.text)
  | .real x => .field "Real" (.single x)
  | .double x => .field "Double" (.double x)
  | .string s => .field "String" (.string s)
  | .date d => .field "Date" (.string d.text)
  | .time t => .field "Time" (.string t.text)
  | .timestamp t => .field "Timestamp" (.string t.isoText)
  | .array items => .field "Array" (.array (Value.records items))
termination_by structural v => v

def Value.records : List Value → List Json
  | [] => []
  | v :: rest => v.record :: Value.records rest
termination_by structural vs => vs

end

/-- The record of a row operator. -/
def RowOp.record : RowOp → Json
  | equals => .string "Equals"
  | notEquals => .string "NotEquals"
  | lessThan => .string "LessThan"
  | lessThanOrEqual => .string "LessThanOrEqual"
  | greaterThan => .string "GreaterThan"
  | greaterThanOrEqual => .string "GreaterThanOrEqual"
  | and => .string "And"
  | or => .string "Or"
  | not => .string "Not"
  | isNull => .string "IsNull"
  | isNotNull => .string "IsNotNull"
  | isIn => .string "In"
  | like => .string "Like"
  | between => .string "Between"
  | plus => .string "Plus"
  | minus => .string "Minus"
  | times => .string "Times"
  | divide => .string "Divide"
  | cast t => .field "Cast" t.record
  | floor u => .field "Floor" (.optional (fun u => .string u.tag) u)
  | ceil u => .field "Ceil" (.optional (fun u => .string u.tag) u)
  | distance => .string "Distance"
  | function name t =>
    .field "Function" (.object [("name", .string name), ("return_type", t.record)])

mutual

/-- The record of a row expression. -/
def RowExpr.record : RowExpr → Json
  | .field i t => .field "InputRef" (.object [("index", .nat i), ("resolved_type", t.record)])
  | .literal v t =>
    .field "Literal" (.object [("value", v.record), ("resolved_type", t.record)])
  | .call op es t =>
    .field "Call" (.object
      [("op", op.record), ("operands", .array (RowExpr.records es)),
       ("resolved_type", t.record)])
termination_by structural e => e

def RowExpr.records : List RowExpr → List Json
  | [] => []
  | e :: rest => e.record :: RowExpr.records rest
termination_by structural es => es

end

/-! ## Reading -/

/-- A value that is no array. -/
def Value.ofParts? (tag : String) (parts : Json) : Option Value :=
  match tag with
  | "Boolean" => parts.bool?.map .boolean
  | "TinyInt" =>
    (parts.intWithin? Int8.minValue.toInt Int8.maxValue.toInt).map fun i => .tinyInt (.ofInt i)
  | "SmallInt" =>
    (parts.intWithin? Int16.minValue.toInt Int16.maxValue.toInt).map fun i => .smallInt (.ofInt i)
  | "Integer" =>
    (parts.intWithin? Int32.minValue.toInt Int32.maxValue.toInt).map fun i => .integer (.ofInt i)
  | "BigInt" =>
    (parts.intWithin? Int64.minValue.toInt Int64.maxValue.toInt).map fun i => .bigInt (.ofInt i)
  | "Decimal" => (parts.string?.bind Number.Decimal.read?).map .decimal
  | "Real" => parts.single?.map .real
  | "Double" => parts.double?.map .double
  | "String" => parts.string?.map .string
  | "Date" => (parts.string?.bind Date.read?).map .date
  | "Time" => (parts.string?.bind TimeOfDay.read?).map .time
  | "Timestamp" => (parts.string?.bind Timestamp.read?).map .timestamp
  | _ => none

mutual

/-- The value of a record. -/
def Value.ofRecord? : Json → Option Value
  | .string tag => if tag = "Null" then some .null else none
  | .object [(tag, .null)] => if tag = "Null" then some .null else none
  | .object [(tag, .array items)] =>
    if tag = "Array" then (Value.ofRecords? items).map .array else none
  | .object [(tag, parts)] => Value.ofParts? tag parts
  | _ => none
termination_by structural j => j

def Value.ofRecords? : List Json → Option (List Value)
  | [] => some []
  | j :: rest => do
    let v ← Value.ofRecord? j
    return v :: (← Value.ofRecords? rest)
termination_by structural js => js

end

namespace RowOp

/-- The operators without parts. -/
def plain : List RowOp :=
  [equals, notEquals, lessThan, lessThanOrEqual, greaterThan, greaterThanOrEqual, and, or, not,
   isNull, isNotNull, isIn, like, between, plus, minus, times, divide, distance]

/-- The row operator of a record. -/
def ofRecord? (j : Json) : Option RowOp :=
  match j.case? with
  | some ("Cast", some target) => (DataType.ofRecord? target).map cast
  | some ("Floor", some unit) => (Json.nullable? TimeUnit.ofRecord? unit).map floor
  | some ("Ceil", some unit) => (Json.nullable? TimeUnit.ofRecord? unit).map ceil
  | some ("Function", some parts) => do
    return function (← parts.get? "name" Json.string?)
      (← parts.get? "return_type" DataType.ofRecord?)
  | _ => Json.plain? record plain j

end RowOp

namespace RowExpr

/-- The row expression of a record that is at most so deep. -/
def ofRecordWithin? : Nat → Json → Option RowExpr
  | 0, _ => none
  | depth + 1, j =>
    match j.case? with
    | some ("InputRef", some parts) => do
      return field (← parts.get? "index" Json.index?)
        (← parts.get? "resolved_type" DataType.ofRecord?)
    | some ("Literal", some parts) => do
      return literal (← parts.get? "value" Value.ofRecord?)
        (← parts.get? "resolved_type" DataType.ofRecord?)
    | some ("Call", some parts) => do
      return call (← parts.get? "op" RowOp.ofRecord?)
        (← parts.get? "operands" (Json.list? (ofRecordWithin? depth)))
        (← parts.get? "resolved_type" DataType.ofRecord?)
    | _ => none

/-- The row expression of a record. -/
def ofRecord? (j : Json) : Option RowExpr := ofRecordWithin? j.depth j

end RowExpr

end StorePlan
