import StorePlan.Value.Basic

/-
Bringing a value to the representation of another type.

A matrix says which pairs of types have a conversion: from Boolean and from
integers of up to 32 bits, to Boolean, integers, decimals, floating-point
numbers and strings. Integers are never narrowed, so no conversion of an
integer to an integer or a decimal changes the number.
-/

namespace StorePlan

open Number Text

/-- Why a value was not converted. -/
inductive CoercionError where
  /-- No conversion starts at this type. -/
  | unsupportedSource (source target : DataType)
  /-- The source has conversions, but none to this target. -/
  | unsupportedTarget (source target : DataType)
  /-- The value is not of the type it was declared with. -/
  | foreignValue (declared : DataType) (value : Value)

/-- The message of an error. -/
def CoercionError.message : CoercionError → String
  | unsupportedSource source target =>
    "[C001] Cannot convert from type: " ++ source.text ++ " (requested target " ++
      target.text ++ ")"
  | unsupportedTarget source target =>
    "[C002] Cannot convert " ++ source.text ++ " to type: " ++ target.text
  | foreignValue declared value =>
    "[C003] Value " ++ value.text ++ " does not match declared type " ++ declared.text

namespace Coercion

/-- Rows of the matrix. -/
inductive Source where
  | boolean
  | integer (width : IntWidth)
deriving DecidableEq

/-- Columns of the matrix. -/
inductive Target where
  | boolean
  | integer (width : IntWidth)
  | decimal
  | float (width : FloatWidth)
  | string
deriving DecidableEq

/-- The row of a type; integers of 64 bits have none. -/
def Source.of? : DataType → Option Source
  | .boolean => some .boolean
  | .integer w => if w.bits < 64 then some (.integer w) else none
  | _ => none

/-- The column of a type; fixed-length strings have none. -/
def Target.of? : DataType → Option Target
  | .boolean => some .boolean
  | .integer w => some (.integer w)
  | .decimal .. => some .decimal
  | .float w => some (.float w)
  | .string _ => some .string
  | _ => none

/-- Which cells of the matrix hold a conversion. -/
def hasCell : Source → Target → Bool
  | .boolean, _ => true
  | .integer _, .boolean => false
  | .integer source, .integer target => source.bits ≤ target.bits
  | .integer _, _ => true

end Coercion

/-- A cell of the matrix that holds a conversion. -/
structure Coercion where
  /-- The declared types. -/
  source : DataType
  target : DataType
  row : Coercion.Source
  column : Coercion.Target
  populated : Coercion.hasCell row column = true

namespace Coercion

/-- The conversion between two types. -/
def resolve (source target : DataType) : Except CoercionError Coercion :=
  match Source.of? source with
  | none => .error (.unsupportedSource source target)
  | some row =>
    match Target.of? target with
    | none => .error (.unsupportedTarget source target)
    | some column =>
      if h : hasCell row column = true then .ok ⟨source, target, row, column, h⟩
      else .error (.unsupportedTarget source target)

/-- A number in the representation of a column. -/
def ofNumber (column : Target) (n : Int64) : Value :=
  match column with
  | .boolean => .boolean (n != 0)
  | .integer .bits8 => .tinyInt n.toInt8
  | .integer .bits16 => .smallInt n.toInt16
  | .integer .bits32 => .integer n.toInt32
  | .integer .bits64 => .bigInt n
  | .decimal => .decimal (.ofInt64 n)
  | .float .bits32 => .real (.ofInt n.toInt)
  | .float .bits64 => .double (.ofInt n.toInt)
  | .string => .string (intText n.toInt)

/-- A truth value in the representation of a column: itself, a word, or one and zero. -/
def ofTruth (column : Target) (b : Bool) : Value :=
  match column with
  | .boolean => .boolean b
  | .string => .string (if b then "true" else "false")
  | column => ofNumber column (if b then 1 else 0)

/-- Converts one value. `NULL` stays. -/
def apply (c : Coercion) (v : Value) : Except CoercionError Value :=
  match c.row, v with
  | _, .null => .ok .null
  | .boolean, .boolean b => .ok (ofTruth c.column b)
  | .integer .bits8, .tinyInt i => .ok (ofNumber c.column i.toInt64)
  | .integer .bits16, .smallInt i => .ok (ofNumber c.column i.toInt64)
  | .integer .bits32, .integer i => .ok (ofNumber c.column i.toInt64)
  | _, v => .error (.foreignValue c.source v)

/-- Converts every item; the first that fails decides. -/
def applyEach (c : Coercion) (vs : List Value) : Except CoercionError (List Value) :=
  vs.mapM c.apply

end Coercion

/-- Converts every value of a sequence declared with one type. -/
def convertEach (vs : List Value) (source target : DataType) :
    Except CoercionError (List Value) := do
  (← Coercion.resolve source target).applyEach vs

namespace Value

/-- Converts a value that is no array facing an array type: from its natural type, and to itself
where the matrix has no conversion. -/
def coerceScalar (v : Value) (target : DataType) : Except CoercionError Value :=
  if v.isNull ∨ v.naturalType = target then .ok v
  else
    match Coercion.resolve v.naturalType target with
    | .ok c => c.apply v
    | .error _ => .ok v

mutual

/-- Brings a literal to the representation of the field it is compared with; an array facing an
array type item by item. -/
def coerce : Value → DataType → Except CoercionError Value
  | array items, .array component => (coerceAll items component).map array
  | v, target => v.coerceScalar target
termination_by structural v => v

def coerceAll : List Value → DataType → Except CoercionError (List Value)
  | [], _ => .ok []
  | v :: rest, t => do
    let v ← v.coerce t
    return v :: (← coerceAll rest t)
termination_by structural vs => vs

end

end Value

end StorePlan
