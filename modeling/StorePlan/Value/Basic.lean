import StorePlan.Calendar
import StorePlan.DataType.Basic
import StorePlan.Number.Decimal
import StorePlan.Number.Shortest
import StorePlan.Text.Structural

/-
Values: what literals, rows and parameters hold. Each value has one natural
type, may belong to several declared ones, and is written in one way.
-/

namespace StorePlan

open Number Text

/-- A value. Arrays are meant to be homogeneous; nothing here relies on it. -/
inductive Value where
  | null
  | boolean (b : Bool)
  | tinyInt (i : Int8)
  | smallInt (i : Int16)
  | integer (i : Int32)
  | bigInt (i : Int64)
  | decimal (d : Decimal)
  | real (x : Single)
  | double (x : Double)
  | string (s : String)
  | date (d : Date)
  | time (t : TimeOfDay)
  | timestamp (t : Timestamp)
  | array (items : List Value)
deriving Inhabited

namespace Value

def isNull : Value → Bool
  | null => true
  | _ => false

/-- The type of a value by itself. An array has the type of its first item. -/
def naturalType : Value → DataType
  | null => .null
  | boolean _ => .boolean
  | tinyInt _ => .integer .bits8
  | smallInt _ => .integer .bits16
  | integer _ => .integer .bits32
  | bigInt _ => .integer .bits64
  | decimal _ => .decimal none none
  | real _ => .float .bits32
  | double _ => .float .bits64
  | string _ => .string none
  | date _ => .date
  | time _ => .time
  | timestamp _ => .timestamp
  | array [] => .array .null
  | array (first :: _) => .array first.naturalType
termination_by structural v => v

mutual

/-- Whether a value may stand where the type is declared. `NULL` may stand everywhere, a string
also for a fixed-length one, and an array where all its items may. -/
def conformsTo : Value → DataType → Bool
  | null, _ => true
  | boolean _, .boolean => true
  | tinyInt _, .integer w => w == .bits8
  | smallInt _, .integer w => w == .bits16
  | integer _, .integer w => w == .bits32
  | bigInt _, .integer w => w == .bits64
  | decimal _, .decimal .. => true
  | real _, .float w => w == .bits32
  | double _, .float w => w == .bits64
  | string _, .string _ => true
  | string _, .char _ => true
  | date _, .date => true
  | time _, .time => true
  | timestamp _, .timestamp => true
  | array items, .array component => allConformTo items component
  | _, _ => false
termination_by structural v => v

def allConformTo : List Value → DataType → Bool
  | [], _ => true
  | v :: rest, t => v.conformsTo t && allConformTo rest t
termination_by structural vs => vs

end

mutual

/-- The value as it appears in explanations and messages; quotes inside a string stand as they
are. -/
def text : Value → String
  | null => "NULL"
  | boolean b => if b then "true" else "false"
  | tinyInt i => intText i.toInt
  | smallInt i => intText i.toInt
  | integer i => intText i.toInt
  | bigInt i => intText i.toInt
  | decimal d => d.text
  | real x => x.text .debug
  | double x => x.text .debug
  | string s => "'" ++ s ++ "'"
  | date d => d.text
  | time t => t.text
  | timestamp t => t.text
  | array items => "[" ++ ", ".intercalate (texts items) ++ "]"
termination_by structural v => v

def texts : List Value → List String
  | [] => []
  | v :: rest => v.text :: texts rest
termination_by structural vs => vs

end

mutual

/-- Equality of values as data: numbers of one kind by their value, so that `1.0` equals `1.00`,
and nothing equals a value that is no number. -/
def eqv : Value → Value → Bool
  | null, null => true
  | boolean a, boolean b => a == b
  | tinyInt a, tinyInt b => a == b
  | smallInt a, smallInt b => a == b
  | integer a, integer b => a == b
  | bigInt a, bigInt b => a == b
  | decimal a, decimal b => a.eqv b
  | real a, real b => a.eqv b
  | double a, double b => a.eqv b
  | string a, string b => a == b
  | date a, date b => a == b
  | time a, time b => a == b
  | timestamp a, timestamp b => a == b
  | array a, array b => allEqv a b
  | _, _ => false
termination_by structural v => v

def allEqv : List Value → List Value → Bool
  | [], [] => true
  | a :: as, b :: bs => a.eqv b && allEqv as bs
  | _, _ => false
termination_by structural vs => vs

end

end Value

end StorePlan
