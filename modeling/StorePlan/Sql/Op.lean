/-
Operators and functions of SQL expressions: their names, how they are laid
out around their operands, and how strongly they bind.
-/

namespace StorePlan.Sql

/-- An operator or a function. -/
inductive Op where
  | equals
  | notEquals
  | lessThan
  | lessThanOrEqual
  | greaterThan
  | greaterThanOrEqual
  | and
  | or
  | not
  | isNull
  | isNotNull
  | isIn
  | like
  | between
  | plus
  | minus
  | times
  | divide
  /-- The sign in front of its one operand. -/
  | negate
  | floor
  | ceil
  | count
  | sum
  /-- A sum that is zero over no rows. -/
  | sumOrZero
  | min
  | max
  | avg
  /-- The value of a single row. -/
  | singleValue
  | function (name : String)
deriving DecidableEq

/-- Where the name of an operator stands. -/
inductive Layout where
  /-- Between two operands. -/
  | binary
  /-- In front of one operand. -/
  | leading
  /-- Behind one operand. -/
  | trailing
  /-- In front of operands in brackets. -/
  | function
  /-- As `IN` and `BETWEEN` have it. -/
  | special
deriving DecidableEq

namespace Op

/-- The keyword, sign or function name. -/
def name : Op → String
  | equals => "="
  | notEquals => "<>"
  | lessThan => "<"
  | lessThanOrEqual => "<="
  | greaterThan => ">"
  | greaterThanOrEqual => ">="
  | and => "AND"
  | or => "OR"
  | not => "NOT"
  | isNull => "IS NULL"
  | isNotNull => "IS NOT NULL"
  | isIn => "IN"
  | like => "LIKE"
  | between => "BETWEEN"
  | plus => "+"
  | minus => "-"
  | times => "*"
  | divide => "/"
  | negate => "-"
  | floor => "FLOOR"
  | ceil => "CEIL"
  | count => "COUNT"
  | sum => "SUM"
  | sumOrZero => "$SUM0"
  | min => "MIN"
  | max => "MAX"
  | avg => "AVG"
  | singleValue => "SINGLE_VALUE"
  | function name => name

def layout : Op → Layout
  | equals | notEquals | lessThan | lessThanOrEqual | greaterThan | greaterThanOrEqual
  | and | or | like | plus | minus | times | divide => .binary
  | not | negate => .leading
  | isNull | isNotNull => .trailing
  | isIn | between => .special
  | floor | ceil | count | sum | sumOrZero | min | max | avg | singleValue | function _ =>
    .function

/-- How strongly leaves and functions bind, which is more than any operator. -/
def leafPrecedence : Nat := 10

/-- How strongly an operator binds. -/
def precedence : Op → Nat
  | or => 1
  | and => 2
  | not => 3
  | equals | notEquals | lessThan | lessThanOrEqual | greaterThan | greaterThanOrEqual
  | like | isIn | between | isNull | isNotNull => 4
  | plus | minus => 5
  | times | divide => 6
  | negate => 7
  | _ => leafPrecedence

/-- Whether a chain means the same however it is nested. -/
def isAssociative : Op → Bool
  | and | or | plus | times => true
  | _ => false

def isAggregate : Op → Bool
  | count | sum | sumOrZero | min | max | avg | singleValue => true
  | _ => false

/-- Whether the operator can stand with this number of operands. -/
def takes (op : Op) (n : Nat) : Bool :=
  match op.layout with
  | .binary => n == 2
  | .leading | .trailing => n == 1
  | .special => if op = isIn then 2 ≤ n else n == 3
  | .function => true

/-- The number of operands in words. -/
def operandsText (op : Op) : String :=
  match op.layout with
  | .binary => "2"
  | .leading | .trailing => "1"
  | .special => if op = isIn then "2 or more" else "3"
  | .function => "0 or more"

/-- How strongly an operand has to bind to stand without brackets, by its position. Operators
lean to the left, and only associative ones may lean to the right as well. -/
def operandPrecedence (op : Op) (position : Nat) : Nat :=
  match op.layout with
  | .binary => if position = 0 ∨ op.isAssociative then op.precedence else op.precedence + 1
  | .leading | .trailing => op.precedence + 1
  | .special => if op = isIn ∧ position ≠ 0 then 0 else op.precedence + 1
  | .function => 0

end Op

end StorePlan.Sql
