import StorePlan.Value.Basic

/-
Row expressions: scalar expressions over the fields of an input row. Every
node carries its type; the type of a call follows from those of its operands
unless it is given.
-/

namespace StorePlan

open Text

/-- Operators of row expressions. -/
inductive RowOp where
  | equals
  | notEquals
  | lessThan
  | lessThanOrEqual
  | greaterThan
  | greaterThanOrEqual
  /-- Conjunction of any number of operands. -/
  | and
  /-- Disjunction of any number of operands. -/
  | or
  | not
  | isNull
  | isNotNull
  /-- The first operand is one of the others. -/
  | isIn
  | like
  /-- The first operand lies between the two others. -/
  | between
  | plus
  | minus
  | times
  | divide
  | cast (target : DataType)
  /-- Rounding down, of a point in time to a unit. -/
  | floor (unit : Option TimeUnit)
  /-- Rounding up, of a point in time to a unit. -/
  | ceil (unit : Option TimeUnit)
  /-- Distance of two vectors: attribute, query vector, metric and perhaps weights. -/
  | distance
  | function (name : String) (returnType : DataType)
deriving DecidableEq

namespace RowOp

/-- The operator's name in explanations. -/
def name : RowOp → String
  | equals => "="
  | notEquals => "<>"
  | lessThan => "<"
  | lessThanOrEqual => "<="
  | greaterThan => ">"
  | greaterThanOrEqual => ">="
  | and => "AND"
  | or => "OR"
  | not => "NOT"
  | isNull => "IS NULL"
  | isNotNull => "IS NOT NULL"
  | isIn => "IN"
  | like => "LIKE"
  | between => "BETWEEN"
  | plus => "+"
  | minus => "-"
  | times => "*"
  | divide => "/"
  | cast _ => "CAST"
  | floor _ => "FLOOR"
  | ceil _ => "CEIL"
  | distance => "DISTANCE"
  | function name _ => name

def isComparison : RowOp → Bool
  | equals | notEquals | lessThan | lessThanOrEqual | greaterThan | greaterThanOrEqual => true
  | _ => false

/-- Whether every call yields a truth value. -/
def isBoolean : RowOp → Bool
  | and | or | not | isNull | isNotNull | isIn | like | between => true
  | op => op.isComparison

/-- The comparison that holds with its operands swapped. -/
def swapped? : RowOp → Option RowOp
  | equals => some equals
  | notEquals => some notEquals
  | lessThan => some greaterThan
  | lessThanOrEqual => some greaterThanOrEqual
  | greaterThan => some lessThan
  | greaterThanOrEqual => some lessThanOrEqual
  | _ => none

end RowOp

/-- The type of an arithmetic result. `NULL` takes the other type, floating-point wins over exact
and decimal over integer, the wider of two widths is kept, and among all other types the left one
decides. -/
def DataType.wider : DataType → DataType → DataType
  | .null, t => t
  | t, .null => t
  | .float a, .float b => .float (a.max b)
  | .float _, _ => .float .bits64
  | _, .float _ => .float .bits64
  | .decimal p s, _ => .decimal p s
  | _, .decimal p s => .decimal p s
  | .integer a, .integer b => .integer (a.max b)
  | t, _ => t

/-- The type of a call over operands of these types. -/
def RowOp.resultType (op : RowOp) (operands : List DataType) : DataType :=
  if op.isBoolean then .boolean
  else
    match op with
    | .cast target => target
    | .function _ returnType => returnType
    | .distance => .float .bits64
    | .plus | .minus | .times | .divide => operands.foldl DataType.wider .null
    | _ => operands.headD .null

/-- A row expression. -/
inductive RowExpr where
  | field (index : Nat) (type : DataType)
  | literal (value : Value) (type : DataType)
  | call (op : RowOp) (operands : List RowExpr) (type : DataType)
deriving Inhabited

namespace RowExpr

def type : RowExpr → DataType
  | field _ t => t
  | literal _ t => t
  | call _ _ t => t

/-- A literal of its value's natural type. -/
def ofValue (v : Value) : RowExpr := literal v v.naturalType

/-- A call whose type follows from its operands. -/
def apply (op : RowOp) (operands : List RowExpr) : RowExpr :=
  call op operands (op.resultType (operands.map type))

/-- A cast to a type. -/
def castTo (e : RowExpr) (target : DataType) : RowExpr := call (.cast target) [e] target

def op? : RowExpr → Option RowOp
  | call op _ _ => some op
  | _ => none

def operands : RowExpr → List RowExpr
  | call _ es _ => es
  | _ => []

def literal? : RowExpr → Option Value
  | literal v _ => some v
  | _ => none

def field? : RowExpr → Option Nat
  | field i _ => some i
  | _ => none

mutual

/-- The fields that the expression refers to, from left to right. -/
def fields : RowExpr → List Nat
  | field i _ => [i]
  | literal .. => []
  | call _ es _ => allFields es
termination_by structural e => e

def allFields : List RowExpr → List Nat
  | [] => []
  | e :: rest => e.fields ++ allFields rest
termination_by structural es => es

end

/-- The first field that lies beyond a row of this width. -/
def fieldBeyond? (e : RowExpr) (width : Nat) : Option Nat := e.fields.find? (width ≤ ·)

mutual

/-- The expression as it appears in explanations and messages. -/
def text : RowExpr → String
  | field i _ => "$" ++ natText i
  | literal v _ => v.text
  | call (.cast target) [] _ => "CAST():" ++ target.text
  | call (.cast target) (e :: _) _ => "CAST(" ++ e.text ++ "):" ++ target.text
  | call (.floor (some unit)) es _ =>
    "FLOOR(" ++ ", ".intercalate (texts es) ++ " TO " ++ unit.name ++ ")"
  | call (.ceil (some unit)) es _ =>
    "CEIL(" ++ ", ".intercalate (texts es) ++ " TO " ++ unit.name ++ ")"
  | call op es _ => op.name ++ "(" ++ ", ".intercalate (texts es) ++ ")"
termination_by structural e => e

def texts : List RowExpr → List String
  | [] => []
  | e :: rest => e.text :: texts rest
termination_by structural es => es

end

mutual

/-- Equality as data, with values compared by `Value.eqv`. -/
def eqv : RowExpr → RowExpr → Bool
  | field i s, field j t => i == j && s == t
  | literal v s, literal w t => v.eqv w && s == t
  | call op es s, call oq fs t => op == oq && allEqv es fs && s == t
  | _, _ => false
termination_by structural e => e

def allEqv : List RowExpr → List RowExpr → Bool
  | [], [] => true
  | e :: es, f :: fs => e.eqv f && allEqv es fs
  | _, _ => false
termination_by structural es => es

end

end RowExpr

end StorePlan
