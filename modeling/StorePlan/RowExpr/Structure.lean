import StorePlan.DataType.Record
import StorePlan.RowExpr.Basic

/-
Structural texts of row expressions, down to their literals and types.
-/

namespace StorePlan

open Text

def DataType.structure : DataType → Structure
  | boolean => .word "Boolean"
  | integer w => .record "Integer" [("bits", .word w.tag)]
  | decimal p s =>
    .record "Decimal"
      [("precision", .optional (fun n => .nat n.toNat) p),
       ("scale", .optional (fun n => .nat n.toNat) s)]
  | float w => .record "Float" [("bits", .word w.tag)]
  | char n => .record "Char" [("length", .optional (fun n => .nat n.toNat) n)]
  | string n => .record "String" [("max_length", .optional (fun n => .nat n.toNat) n)]
  | date => .word "Date"
  | time => .word "Time"
  | timestamp => .word "Timestamp"
  | interval q => .applied "Interval" [.word q.tag]
  | binary => .word "Binary"
  | multimedia k => .applied "Multimedia" [.word k.tag]
  | json => .word "Json"
  | array t => .applied "Array" [t.structure]
  | null => .word "Null"

mutual

def Value.structure : Value → Structure
  | .null => .word "Null"
  | .boolean b => .applied "Boolean" [.word (if b then "true" else "false")]
  | .tinyInt i => .applied "TinyInt" [.word (intText i.toInt)]
  | .smallInt i => .applied "SmallInt" [.word (intText i.toInt)]
  | .integer i => .applied "Integer" [.word (intText i.toInt)]
  | .bigInt i => .applied "BigInt" [.word (intText i.toInt)]
  | .decimal d => .applied "Decimal" [.word d.text]
  | .real x => .applied "Real" [.word (x.text .debug)]
  | .double x => .applied "Double" [.word (x.text .debug)]
  | .string s => .applied "String" [.quoted s]
  | .date d => .applied "Date" [.word d.text]
  | .time t => .applied "Time" [.word t.text]
  | .timestamp t => .applied "Timestamp" [.word t.isoText]
  | .array items => .applied "Array" [.list (Value.structures items)]
termination_by structural v => v

def Value.structures : List Value → List Structure
  | [] => []
  | v :: rest => v.structure :: Value.structures rest
termination_by structural vs => vs

end

def RowOp.structure : RowOp → Structure
  | equals => .word "Equals"
  | notEquals => .word "NotEquals"
  | lessThan => .word "LessThan"
  | lessThanOrEqual => .word "LessThanOrEqual"
  | greaterThan => .word "GreaterThan"
  | greaterThanOrEqual => .word "GreaterThanOrEqual"
  | and => .word "And"
  | or => .word "Or"
  | not => .word "Not"
  | isNull => .word "IsNull"
  | isNotNull => .word "IsNotNull"
  | isIn => .word "In"
  | like => .word "Like"
  | between => .word "Between"
  | plus => .word "Plus"
  | minus => .word "Minus"
  | times => .word "Times"
  | divide => .word "Divide"
  | cast t => .applied "Cast" [t.structure]
  | floor u => .applied "Floor" [.optional (fun u => .word u.tag) u]
  | ceil u => .applied "Ceil" [.optional (fun u => .word u.tag) u]
  | distance => .word "Distance"
  | function name t =>
    .record "Function" [("name", .quoted name), ("return_type", t.structure)]

mutual

def RowExpr.structure : RowExpr → Structure
  | .field i t => .record "InputRef" [("index", .nat i), ("resolved_type", t.structure)]
  | .literal v t =>
    .record "Literal" [("value", v.structure), ("resolved_type", t.structure)]
  | .call op es t =>
    .record "Call"
      [("op", op.structure), ("operands", .list (RowExpr.structures es)),
       ("resolved_type", t.structure)]
termination_by structural e => e

def RowExpr.structures : List RowExpr → List Structure
  | [] => []
  | e :: rest => e.structure :: RowExpr.structures rest
termination_by structural es => es

end

end StorePlan
