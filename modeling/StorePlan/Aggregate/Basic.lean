import StorePlan.Schema
import StorePlan.Text.Numeral

/-
Aggregate calls, and the ways in which rows are grouped for them.

`Grouping.classify` recognises the flat grouping, a rollup (every initial
part of the grouped fields, longest first) and a cube (every subset once).
-/

namespace StorePlan

open Text

/-- Aggregate functions. -/
inductive AggregateFunction where
  | count
  /-- A sum, `NULL` over no rows. -/
  | sum
  /-- A sum, zero over no rows. -/
  | sumOrZero
  | min
  | max
  | avg
  /-- Stands for a sub-query that is expected to yield one row. -/
  | singleValue
  | other (name : String) (returnType : DataType)
deriving DecidableEq

/-- How many arguments a function takes. -/
inductive Arity where
  | atMostOne
  | exactlyOne
  | any
deriving DecidableEq

namespace Arity

def allows : Arity → Nat → Bool
  | atMostOne, n => n ≤ 1
  | exactlyOne, n => n == 1
  | any, _ => true

def text : Arity → String
  | atMostOne => "0 or 1"
  | exactlyOne => "1"
  | any => "any"

end Arity

namespace AggregateFunction

def name : AggregateFunction → String
  | count => "COUNT"
  | sum => "SUM"
  | sumOrZero => "$SUM0"
  | min => "MIN"
  | max => "MAX"
  | avg => "AVG"
  | singleValue => "SINGLE_VALUE"
  | other name _ => name

def arity : AggregateFunction → Arity
  | count => .atMostOne
  | other .. => .any
  | _ => .exactlyOne

/-- Whether the result may be `NULL`. -/
def isNullable : AggregateFunction → Bool
  | count | sumOrZero => false
  | _ => true

/-- The type of a sum: integers are summed up in 64 bits, floating-point numbers too. -/
def sumType : DataType → DataType
  | .integer _ => .integer .bits64
  | .float _ => .float .bits64
  | t => t

/-- The type of the result, by the type of the first argument. -/
def resultType (f : AggregateFunction) (argument : DataType) : DataType :=
  match f with
  | count => .integer .bits64
  | sum | sumOrZero => sumType argument
  | min | max | avg | singleValue => argument
  | other _ returnType => returnType

end AggregateFunction

/-- One aggregate call. -/
structure AggregateCall where
  function : AggregateFunction
  /-- Fields of the input row. -/
  arguments : List Nat
  distinct : Bool
  /-- The name of the output column, if one is given. -/
  name : Option String
deriving DecidableEq

namespace AggregateCall

/-- A call over all its arguments, without a name. -/
def of (function : AggregateFunction) (arguments : List Nat) : AggregateCall :=
  ⟨function, arguments, false, none⟩

/-- The call in explanations and messages. -/
def text (c : AggregateCall) : String :=
  c.function.name ++ "(" ++ (if c.distinct then "DISTINCT " else "") ++
    ", ".intercalate (c.arguments.map fun i => "$" ++ natText i) ++ ")"

/-- The type of the result over rows of a type. -/
def resultType (c : AggregateCall) (input : Schema) : DataType :=
  c.function.resultType
    (((c.arguments.head?.bind input.column?).map (·.type)).getD .null)

def isNullable (c : AggregateCall) : Bool := c.function.isNullable

end AggregateCall

/-- The ways of grouping. -/
inductive Grouping where
  /-- One grouping by all grouped fields. -/
  | simple
  /-- One for every initial part of the grouped fields. -/
  | rollup
  /-- One for every subset of the grouped fields. -/
  | cube
  | other
deriving DecidableEq

namespace Grouping

def text : Grouping → String
  | simple => "SIMPLE"
  | rollup => "ROLLUP"
  | cube => "CUBE"
  | other => "OTHER"

/-- The initial parts of a list, longest first. -/
def initialParts (fields : List Nat) : List (List Nat) :=
  (List.range (fields.length + 1)).map fun i => fields.take (fields.length - i)

/-- A set of grouped fields as the sum of one power of two for each; `none` for a field that is
not grouped. -/
def mask? (fields set : List Nat) : Option Nat :=
  set.foldlM (fun mask field => (fields.idxOf? field).map fun i => mask ||| 1 <<< i) 0

/-- Widest list of grouped fields among whose subsets a cube is looked for. -/
def cubeLimit : Nat := 64

/-- Whether the sets are all subsets of the fields, each one once. -/
def isCube (fields : List Nat) (sets : List (List Nat)) : Bool :=
  fields.length < cubeLimit && sets.length == Nat.pow 2 fields.length &&
    (sets.filterMap (mask? fields)).eraseDups.length == sets.length

/-- Which grouping the sets form over the grouped fields; without sets, the simple one. -/
def classify (fields : List Nat) : Option (List (List Nat)) → Grouping
  | none => simple
  | some sets =>
    if sets = [fields] then simple
    else if sets = initialParts fields then rollup
    else if isCube fields sets then cube
    else other

end Grouping

end StorePlan
