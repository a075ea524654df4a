import StorePlan.Json
import StorePlan.Value.Basic

/-
Data as a vector store takes them: scalars of a few kinds, and vectors whose
components are all of one kind. Integers of up to 32 bits travel as one kind.
-/

namespace StorePlan.VectorStore

open Number

/-- The components of a vector. -/
inductive Components where
  | bools (xs : List Bool)
  | ints (xs : List Int32)
  | longs (xs : List Int64)
  | singles (xs : List Single)
  | doubles (xs : List Double)

/-- A scalar or a vector. -/
inductive Datum where
  | null
  | bool (b : Bool)
  | int (i : Int32)
  | long (i : Int64)
  | single (x : Single)
  | double (x : Double)
  | string (s : String)
  | vector (components : Components)

/-- Why a value cannot be sent. -/
inductive UnsendableValue where
  /-- The store has no data of this kind. -/
  | kind (value : Value)
  /-- The vector has components of another kind before this one. -/
  | mixedComponent (value : Value)
  /-- A vector cannot start with this value. -/
  | noComponent (value : Value)

namespace UnsendableValue

def value : UnsendableValue → Value
  | kind v | mixedComponent v | noComponent v => v

def reason : UnsendableValue → String
  | kind _ => "no wire type"
  | mixedComponent _ => "vector elements must share one numeric or boolean kind"
  | noComponent _ => "not a vector element"

end UnsendableValue

/-! ## Components -/

def bool? : Value → Option Bool
  | .boolean b => some b
  | _ => none

/-- An integer of up to 32 bits. -/
def int? : Value → Option Int32
  | .tinyInt i => some i.toInt32
  | .smallInt i => some i.toInt32
  | .integer i => some i
  | _ => none

def long? : Value → Option Int64
  | .bigInt i => some i
  | _ => none

def single? : Value → Option Single
  | .real x => some x
  | _ => none

def double? : Value → Option Double
  | .double x => some x
  | _ => none

namespace Components

/-- Every value as a component of one kind; the first that is of another kind decides. -/
def collect (pick : Value → Option α) : List Value → Except UnsendableValue (List α)
  | [] => .ok []
  | v :: rest =>
    match pick v with
    | none => .error (.mixedComponent v)
    | some a => do return a :: (← collect pick rest)

/-- The vector of some values. The first one decides on the kind, and an empty vector is one of
doubles. -/
def ofValues (vs : List Value) : Except UnsendableValue Components :=
  match vs with
  | [] => .ok (.doubles [])
  | .boolean _ :: _ => (collect bool? vs).map .bools
  | .tinyInt _ :: _ | .smallInt _ :: _ | .integer _ :: _ => (collect int? vs).map .ints
  | .bigInt _ :: _ => (collect long? vs).map .longs
  | .real _ :: _ => (collect single? vs).map .singles
  | .double _ :: _ => (collect double? vs).map .doubles
  | v :: _ => .error (.noComponent v)

/-- The values of a vector. -/
def values : Components → List Value
  | bools xs => xs.map .boolean
  | ints xs => xs.map .integer
  | longs xs => xs.map .bigInt
  | singles xs => xs.map .real
  | doubles xs => xs.map .double

def length (c : Components) : Nat := c.values.length

def isEmpty (c : Components) : Bool := c.length == 0

/-- A vector in a request. -/
def record : Components → Json
  | bools xs => .field "bool_vector" (.array (xs.map .bool))
  | ints xs => .field "int_vector" (.array (xs.map fun i => .integer i.toInt))
  | longs xs => .field "long_vector" (.array (xs.map fun i => .integer i.toInt))
  | singles xs => .field "float_vector" (.array (xs.map .single))
  | doubles xs => .field "double_vector" (.array (xs.map .double))

end Components

/-! ## Data -/

namespace Datum

/-- The datum for a value. Decimals and points in time have none. -/
def ofValue : Value → Except UnsendableValue Datum
  | .null => .ok .null
  | .boolean b => .ok (.bool b)
  | .tinyInt i => .ok (.int i.toInt32)
  | .smallInt i => .ok (.int i.toInt32)
  | .integer i => .ok (.int i)
  | .bigInt i => .ok (.long i)
  | .real x => .ok (.single x)
  | .double x => .ok (.double x)
  | .string s => .ok (.string s)
  | .array items => (Components.ofValues items).map .vector
  | .decimal d => .error (.kind (.decimal d))
  | .date d => .error (.kind (.date d))
  | .time t => .error (.kind (.time t))
  | .timestamp t => .error (.kind (.timestamp t))

/-- The value that a datum stands for. -/
def toValue : Datum → Value
  | null => .null
  | bool b => .boolean b
  | int i => .integer i
  | long i => .bigInt i
  | single x => .real x
  | double x => .double x
  | string s => .string s
  | vector c => .array c.values

def isNull : Datum → Bool
  | null => true
  | _ => false

def components? : Datum → Option Components
  | vector c => some c
  | _ => none

/-- A datum in a request. -/
def record : Datum → Json
  | null => .string "null_data"
  | bool b => .field "boolean_data" (.bool b)
  | int i => .field "int_data" (.integer i.toInt)
  | long i => .field "long_data" (.integer i.toInt)
  | single x => .field "float_data" (.single x)
  | double x => .field "double_data" (.double x)
  | string s => .field "string_data" (.string s)
  | vector c => .field "vector_data" c.record

end Datum

end StorePlan.VectorStore
