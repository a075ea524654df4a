import StorePlan.Json

/-
Taking JSON documents apart: the parts of objects and arrays, and scalars
within bounds. `Json.depth` bounds how deep a document can be taken apart.
-/

namespace StorePlan.Json

open Number

/-- The value of a field. Of two fields with one name the last one counts. -/
def field? (j : Json) (name : String) : Option Json :=
  match j with
  | object fields => (fields.reverse.find? (·.1 == name)).map (·.2)
  | _ => none

def string? : Json → Option String
  | string s => some s
  | _ => none

def bool? : Json → Option Bool
  | bool b => some b
  | _ => none

def items? : Json → Option (List Json)
  | array items => some items
  | _ => none

/-- An integer within bounds. -/
def intWithin? (least most : Int) : Json → Option Int
  | integer i => if least ≤ i ∧ i ≤ most then some i else none
  | _ => none

def natBelow? (bound : Nat) : Json → Option Nat
  | integer i => if 0 ≤ i ∧ i < bound then some i.toNat else none
  | _ => none

/-- A position in a list. -/
def index? : Json → Option Nat := natBelow? UInt64.size

def uint16? (j : Json) : Option UInt16 := (natBelow? UInt16.size j).map .ofNat

def uint32? (j : Json) : Option UInt32 := (natBelow? UInt32.size j).map .ofNat

def uint64? (j : Json) : Option UInt64 := (natBelow? UInt64.size j).map .ofNat

def single? : Json → Option Single
  | integer i => some (.ofInt i)
  | single x => some x
  | double x => some x.convert
  | _ => none

def double? : Json → Option Double
  | integer i => some (.ofInt i)
  | single x => some x.convert
  | double x => some x
  | _ => none

/-- Every item of an array. -/
def list? (read : Json → Option α) (j : Json) : Option (List α) := j.items?.bind (·.mapM read)

/-- The two items of an array of two. -/
def pair? {α β : Type} (first : Json → Option α) (second : Json → Option β) : Json → Option (α × β)
  | array [a, b] => do return (← first a, ← second b)
  | _ => none

/-- A value in whose place there may be `null`. -/
def nullable? (read : Json → Option α) : Json → Option (Option α)
  | null => some none
  | j => (read j).map some

/-- The value of a field that has to be there. -/
def get? (j : Json) (name : String) (read : Json → Option α) : Option α :=
  (j.field? name).bind read

/-- The value of a field that may be missing or `null`. -/
def getNullable? (j : Json) (name : String) (read : Json → Option α) : Option (Option α) :=
  match j, j.field? name with
  | object _, some value => nullable? read value
  | object _, none => some none
  | _, _ => none

/-- A case of several: its tag, and its parts if it has any. -/
def case? : Json → Option (String × Option Json)
  | string tag => some (tag, none)
  | object [(tag, parts)] => some (tag, some parts)
  | _ => none

/-- The tag of a case without parts, in whose place there may be `null`. -/
def plainTag? : Json → Option String
  | string tag => some tag
  | object [(tag, null)] => some tag
  | _ => none

/-- Whether a document is just this tag. -/
def isTag (j : Json) (tag : String) : Bool :=
  match j with
  | string s => s == tag
  | _ => false

/-- One of several cases without parts, by its tag. -/
def choice? (tag : α → String) (choices : List α) (j : Json) : Option α :=
  j.plainTag?.bind fun found => choices.find? fun a => tag a == found

/-- One of several cases without parts, by its record. -/
def plain? (record : α → Json) (choices : List α) (j : Json) : Option α :=
  j.plainTag?.bind fun found => choices.find? fun a => (record a).isTag found

mutual

/-- Number of arrays and objects around the innermost scalar. -/
def depth : Json → Nat
  | array items => 1 + depths items
  | object fields => 1 + fieldDepths fields
  | _ => 0
termination_by structural j => j

def depths : List Json → Nat
  | [] => 0
  | j :: rest => max j.depth (depths rest)
termination_by structural js => js

def fieldDepths : List (String × Json) → Nat
  | [] => 0
  | (_, j) :: rest => max j.depth (fieldDepths rest)
termination_by structural fs => fs

end

end StorePlan.Json
